import PageTemplate.Text.Blank
import PageTemplate.Text.Lines
import PageTemplate.Token
import PageTemplate.Token.LexError

namespace PageTemplate

/-- What begins at a character: white space that is passed over, or a token together with the number
of characters it takes after the first. -/
inductive Lexeme
  | blank
  | token (kind : TokenKind) (more : Nat)

namespace Lexeme

def isWordStart (c : Char) : Bool := c.isAlpha || c == '_'

def isWordChar (c : Char) : Bool := c.isAlphanum || c == '_'

theorem length_lt_of_dropWhile_eq {p : Char → Bool} {cs rest : List Char} {c : Char}
    (h : cs.dropWhile p = c :: rest) : rest.length < cs.length := by
  have := (List.dropWhile_suffix p (l := cs)).length_le
  rw [h, List.length_cons] at this
  omega

/-- Words joined by single dots. A dot belongs to the name only if a word follows it. -/
def dottedWords (cs : List Char) : List (List Char) :=
  match hrest : cs.dropWhile isWordChar with
  | '.' :: c :: rest =>
    if isWordStart c then
      have := length_lt_of_dropWhile_eq hrest
      cs.takeWhile isWordChar :: dottedWords (c :: rest)
    else [cs.takeWhile isWordChar]
  | _ => [cs.takeWhile isWordChar]
termination_by cs.length

def ofWords : List String → TokenKind
  | [word] =>
    match Keyword.ofWord? word with
    | some keyword => .keyword keyword
    | none =>
      if word = "true" then .bool true
      else if word = "false" then .bool false
      else .identifier word
  | parts => .dottedName parts

def name (cs : List Char) : Lexeme :=
  let words := dottedWords cs
  .token (ofWords (words.map String.ofList)) ((['.'].intercalate words).length - 1)

def opening? : Char → List Char → Option Lexeme
  | '{', '{' :: ':' :: _ => some (.token (.delimiter .printOpen) 2)
  | '{', '{' :: _ => some (.token (.delimiter .blockOpen) 1)
  | _, _ => none

def closing? : Char → List Char → Option Lexeme
  | '}', '}' :: _ => some (.token (.delimiter .blockClose) 1)
  | _, _ => none

def operator? : Char → List Char → Option Lexeme
  | '=', '=' :: _ => some (.token (.operator .relation "==") 1)
  | '!', '=' :: _ => some (.token (.operator .relation "!=") 1)
  | '<', '=' :: _ => some (.token (.operator .relation "<=") 1)
  | '>', '=' :: _ => some (.token (.operator .relation ">=") 1)
  | '|', '|' :: _ => some (.token (.operator .logic "||") 1)
  | '&', '&' :: _ => some (.token (.operator .logic "&&") 1)
  | '=', _ => some (.token (.operator .assign "=") 0)
  | '<', _ => some (.token (.operator .relation "<") 0)
  | '>', _ => some (.token (.operator .relation ">") 0)
  | '+', _ => some (.token (.operator .plus "+") 0)
  | '-', _ => some (.token (.operator .minus "-") 0)
  | '*', _ => some (.token (.operator .mult "*") 0)
  | '/', _ => some (.token (.operator .mult "/") 0)
  | '%', _ => some (.token (.operator .mult "%") 0)
  | '!', _ => some (.token (.operator .bang "!") 0)
  | _, _ => none

def isSymbol (c : Char) : Bool := c == '(' || c == ')' || c == ',' || c == ';'

/-- A string literal has no escapes: it ends at the next quote. -/
def stringLiteral (rest : List Char) : Except LexFault Lexeme :=
  let content := rest.takeWhile (· != '"')
  if content.length = rest.length then .error .unterminatedString
  else .ok (.token (.string (String.ofList content)) (content.length + 1))

def number (c : Char) (rest : List Char) : Except LexFault Lexeme :=
  let digits := c :: rest.takeWhile Char.isDigit
  match int64? (Nat.ofDigitChars 10 digits 0) with
  | some value => .ok (.token (.number value) (digits.length - 1))
  | none => .error (.numberOutOfRange (String.ofList digits))

def inside (c : Char) (rest : List Char) : Except LexFault Lexeme :=
  if Text.isBlank c then .ok .blank
  else
    match closing? c rest <|> opening? c rest <|> operator? c rest with
    | some lexeme => .ok lexeme
    | none =>
      if isSymbol c then .ok (.token (.symbol c) 0)
      else if isWordStart c then .ok (name (c :: rest))
      else if c = '"' then stringLiteral rest
      else if c.isDigit then number c rest
      else .error (.unexpectedChar c)

def textLength : List Char → Nat
  | [] => 0
  | '{' :: '{' :: _ => 0
  | _ :: rest => textLength rest + 1

def outside (c : Char) (rest : List Char) : Lexeme :=
  match opening? c rest with
  | some lexeme => lexeme
  | none =>
    let length := textLength rest
    .token (.text (String.ofList (c :: rest.take length))) length

def read (inBlock : Bool) (c : Char) (rest : List Char) : Except LexFault Lexeme :=
  if inBlock then inside c rest else .ok (outside c rest)

def inBlockAfter (inBlock : Bool) : TokenKind → Bool
  | .delimiter .blockClose => false
  | .delimiter _ => true
  | _ => inBlock

end Lexeme

namespace Lexer

/-- The tokens of the rest of a line, the line's end among them, and whether a block is open
afterwards. A fault ends the line. -/
def scan (line : Nat) (inBlock : Bool) (column : Nat) :
    List Char → Except LexError (List Token) × Bool
  | [] => (.ok [⟨.endOfLine, ⟨line, column⟩⟩], inBlock)
  | c :: rest =>
    match Lexeme.read inBlock c rest with
    | .error fault => (.error ⟨fault, ⟨line, column⟩⟩, inBlock)
    | .ok .blank => scan line inBlock (column + 1) rest
    | .ok (.token kind more) =>
      let inBlock := Lexeme.inBlockAfter inBlock kind
      let scanned := scan line inBlock (column + more + 1) (rest.drop more)
      (scanned.1.map (⟨kind, ⟨line, column⟩⟩ :: ·), scanned.2)
termination_by cs => cs.length
decreasing_by all_goals simp only [List.length_cons, List.length_drop]; omega

end Lexer

structure Lexer where
  line : Nat := 0
  inBlock : Bool := false
  deriving DecidableEq

namespace Lexer

def readLine (lexer : Lexer) (line : List Char) : Except LexError (List Token) × Lexer :=
  let scanned := scan (lexer.line + 1) lexer.inBlock 1 line
  (scanned.1, ⟨lexer.line + 1, scanned.2⟩)

def readLines (lexer : Lexer) : List (List Char) → Except LexError (List Token)
  | [] => .ok []
  | line :: lines =>
    match lexer.readLine line with
    | (.error e, _) => .error e
    | (.ok tokens, next) => (next.readLines lines).map (tokens ++ ·)

def readableLines (lexer : Lexer) : List (List Char) → List Token
  | [] => []
  | line :: lines =>
    match lexer.readLine line with
    | (.error _, _) => []
    | (.ok tokens, next) => tokens ++ next.readableLines lines

end Lexer

def tokenize (source : String) : Except LexError (List Token) :=
  Lexer.readLines {} (Text.lines source.toList)

end PageTemplate
