import PageTemplate.Failure
import PageTemplate.Parser

namespace PageTemplate

namespace Parser

def pushAll (parser : Parser) : List Token → List Node × Except ParseError Parser
  | [] => ([], .ok parser)
  | token :: tokens =>
    match parser.push token with
    | (.error e, _) => ([], .error e)
    | (.ok root, next) =>
      let (roots, result) := next.pushAll tokens
      (root.toList ++ roots, result)

end Parser

namespace Template

structure Reading where
  trees : List Node
  fault : Option Failure

namespace Reading

/-- Read lines in order. No token of a line counts until the whole line has been read. -/
def ofLines (lexer : Lexer) (parser : Parser) : List (List Char) → Reading
  | [] =>
    match parser.finish.1 with
    | .ok () => ⟨[], none⟩
    | .error e => ⟨[], some (.parse e)⟩
  | line :: lines =>
    match lexer.readLine line with
    | (.error e, _) => ⟨[], some (.lex e)⟩
    | (.ok tokens, lexer) =>
      match parser.pushAll tokens with
      | (trees, .error e) => ⟨trees, some (.parse e)⟩
      | (trees, .ok parser) =>
        let later := ofLines lexer parser lines
        ⟨trees ++ later.trees, later.fault⟩

def ofSource (source : String) : Reading := ofLines {} .idle (Text.lines source.toList)

end Reading
end Template
end PageTemplate
