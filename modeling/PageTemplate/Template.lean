import PageTemplate.Failure
import PageTemplate.Parser

namespace PageTemplate.Template

/-- The trees of a source. A fault in any line counts before a misplaced token. -/
def read (source : String) : Except Failure (List Node) :=
  match tokenize source with
  | .error e => .error (.lex e)
  | .ok tokens =>
    match parse tokens with
    | .error e => .error (.parse e)
    | .ok nodes => .ok nodes

/-- The key of the template in a file: the names on the way to it from the root, as text. -/
def key (root path : Path) : String := ((path.stripPrefix? root).getD path).slashed

end PageTemplate.Template
