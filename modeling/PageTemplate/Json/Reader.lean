import PageTemplate.Json

namespace PageTemplate.JsonValue

inductive Token
  | scalar (value : JsonValue)
  | openArray | closeArray | openObject | closeObject | comma | colon

/-- A piece of a string: a character, or the code unit of an escape. -/
inductive Piece
  | char (c : Char)
  | unit (code : Nat)

def hexDigit? (c : Char) : Option Nat :=
  if c.isDigit then some (c.toNat - '0'.toNat)
  else if 'a' ≤ c ∧ c ≤ 'f' then some (c.toNat - 'a'.toNat + 10)
  else if 'A' ≤ c ∧ c ≤ 'F' then some (c.toNat - 'A'.toNat + 10)
  else none

def hexCode? (digits : List Char) : Option Nat :=
  digits.foldlM (fun code c => (hexDigit? c).map (16 * code + ·)) 0

def escaped? : Char → Option Char
  | '"' => some '"'
  | '\\' => some '\\'
  | '/' => some '/'
  | 'b' => some '\x08'
  | 'f' => some '\x0c'
  | 'n' => some '\n'
  | 'r' => some '\r'
  | 't' => some '\t'
  | _ => none

/-- The pieces of a string up to its closing quote, and the number of characters they take, the
quote included. Control characters must be escaped. -/
def pieces? : List Char → Option (List Piece × Nat)
  | [] => none
  | '"' :: _ => some ([], 1)
  | '\\' :: 'u' :: a :: b :: c :: d :: rest => do
    let code ← hexCode? [a, b, c, d]
    let (pieces, count) ← pieces? rest
    return (.unit code :: pieces, count + 6)
  | '\\' :: c :: rest => do
    let char ← escaped? c
    let (pieces, count) ← pieces? rest
    return (.char char :: pieces, count + 2)
  | c :: rest =>
    if c < ' ' || c = '\\' then none
    else (pieces? rest).map fun (pieces, count) => (.char c :: pieces, count + 1)

def isHigh (code : Nat) : Bool := 0xD800 ≤ code && code ≤ 0xDBFF

def isLow (code : Nat) : Bool := 0xDC00 ≤ code && code ≤ 0xDFFF

def chars? : List Piece → Option (List Char)
  | [] => some []
  | .char c :: rest => (chars? rest).map (c :: ·)
  | .unit high :: .unit low :: rest =>
    if isHigh high && isLow low then
      (chars? rest).map (Char.ofNat (0x10000 + (high - 0xD800) * 0x400 + (low - 0xDC00)) :: ·)
    else if isHigh high || isLow high then none
    else (chars? (.unit low :: rest)).map (Char.ofNat high :: ·)
  | .unit code :: rest =>
    if isHigh code || isLow code then none else (chars? rest).map (Char.ofNat code :: ·)

def fractionLength? : List Char → Option Nat
  | '.' :: rest =>
    match (rest.takeWhile Char.isDigit).length with
    | 0 => none
    | count => some (count + 1)
  | _ => some 0

def exponentLength? : List Char → Option Nat
  | c :: rest =>
    if c = 'e' || c = 'E' then
      let signed := match rest with
        | '+' :: _ | '-' :: _ => 1
        | _ => 0
      match ((rest.drop signed).takeWhile Char.isDigit).length with
      | 0 => none
      | count => some (count + signed + 1)
    else some 0
  | [] => some 0

/-- A number without a sign and the characters it takes. Only zero itself begins with a zero. -/
def magnitude? (cs : List Char) : Option (Option Nat × Nat) := do
  let digits := match cs with
    | '0' :: _ => ['0']
    | _ => cs.takeWhile Char.isDigit
  if digits = [] then none
  else
    let fraction ← fractionLength? (cs.drop digits.length)
    let exponent ← exponentLength? (cs.drop (digits.length + fraction))
    let whole := if fraction + exponent = 0 then some (Nat.ofDigitChars 10 digits 0) else none
    return (whole, digits.length + fraction + exponent)

/-- The token that begins with a character, and the number of characters it takes after that. -/
def token? (c : Char) (rest : List Char) : Option (Token × Nat) :=
  match c with
  | '[' => some (.openArray, 0)
  | ']' => some (.closeArray, 0)
  | '{' => some (.openObject, 0)
  | '}' => some (.closeObject, 0)
  | ',' => some (.comma, 0)
  | ':' => some (.colon, 0)
  | '"' => (pieces? rest).map fun (pieces, count) =>
    (.scalar (.string ((chars? pieces).map String.ofList)), count)
  | '-' => (magnitude? rest).map fun (_, count) => (.scalar (.number none), count)
  | _ =>
    if c.isDigit then
      (magnitude? (c :: rest)).map fun (whole, count) => (.scalar (.number whole), count - 1)
    else if ['n', 'u', 'l', 'l'].isPrefixOf (c :: rest) then some (.scalar .null, 3)
    else if ['t', 'r', 'u', 'e'].isPrefixOf (c :: rest) then some (.scalar (.bool true), 3)
    else if ['f', 'a', 'l', 's', 'e'].isPrefixOf (c :: rest) then some (.scalar (.bool false), 4)
    else none

def isSpace (c : Char) : Bool := c == ' ' || c == '\t' || c == '\n' || c == '\r'

def tokens? : List Char → Option (List Token)
  | [] => some []
  | c :: rest =>
    if isSpace c then tokens? rest
    else
      match token? c rest with
      | none => none
      | some (token, count) => (tokens? (rest.drop count)).map (token :: ·)
termination_by cs => cs.length
decreasing_by all_goals simp only [List.length_cons, List.length_drop]; omega

abbrev Rest (tokens : List Token) := { rest : List Token // rest.length < tokens.length }

mutual

def value? (tokens : List Token) : Option (JsonValue × Rest tokens) :=
  match tokens with
  | .scalar value :: rest => some (value, ⟨rest, by grind⟩)
  | .openArray :: .closeArray :: rest => some (.array [], ⟨rest, by grind⟩)
  | .openArray :: rest =>
    match items? rest with
    | some (items, ⟨after, h⟩) => some (.array items, ⟨after, by grind⟩)
    | none => none
  | .openObject :: .closeObject :: rest => some (.object [], ⟨rest, by grind⟩)
  | .openObject :: rest =>
    match fields? rest with
    | some (fields, ⟨after, h⟩) => some (.object fields, ⟨after, by grind⟩)
    | none => none
  | _ => none
termination_by (tokens.length, 0)

def items? (tokens : List Token) : Option (List JsonValue × Rest tokens) :=
  match value? tokens with
  | some (value, ⟨.closeArray :: rest, h⟩) =>
    some ([value], ⟨rest, by grind⟩)
  | some (value, ⟨.comma :: rest, h⟩) =>
    have : rest.length < tokens.length := by grind
    match items? rest with
    | some (items, ⟨after, h'⟩) => some (value :: items, ⟨after, by grind⟩)
    | none => none
  | _ => none
termination_by (tokens.length, 1)

def fields? (tokens : List Token) : Option (List (Option String × JsonValue) × Rest tokens) :=
  match tokens with
  | .scalar (.string key) :: .colon :: rest =>
    match value? rest with
    | some (value, ⟨.closeObject :: rest', h⟩) =>
      some ([(key, value)], ⟨rest', by grind⟩)
    | some (value, ⟨.comma :: rest', h⟩) =>
      have : rest'.length < rest.length := by grind
      match fields? rest' with
      | some (fields, ⟨after, h'⟩) => some ((key, value) :: fields, ⟨after, by grind⟩)
      | none => none
    | _ => none
  | _ => none
termination_by (tokens.length, 1)

end

def read? (text : String) : Option JsonValue :=
  match tokens? text.toList with
  | none => none
  | some tokens =>
    match value? tokens with
    | some (value, ⟨[], _⟩) => some value
    | _ => none

end PageTemplate.JsonValue
