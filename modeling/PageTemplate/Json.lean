namespace PageTemplate

inductive JsonValue
  | null
  | bool (b : Bool)
  /-- A number, if it is written with digits only. -/
  | number (n : Option Nat)
  /-- A string, unless its escapes leave half a surrogate pair alone. -/
  | string (s : Option String)
  | array (items : List JsonValue)
  | object (fields : List (Option String × JsonValue))

end PageTemplate
