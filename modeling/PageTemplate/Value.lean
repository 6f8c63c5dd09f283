import PageTemplate.Text.Decimal

namespace PageTemplate

mutual

inductive Value
  | int (n : Int64)
  | str (s : String)
  | bool (b : Bool)
  /-- A nested scope, such as the exports of a file. -/
  | container (scope : Context)

structure Context where
  entries : List (String × Value)

end

inductive ValueType
  | int | string | bool | container
  deriving DecidableEq

def ValueType.name : ValueType → String
  | .int => "int"
  | .string => "string"
  | .bool => "bool"
  | .container => "container"

def readBool? (s : String) : Option Bool :=
  if s = "true" then some true
  else if s = "false" then some false
  else none

namespace Value

def type : Value → ValueType
  | .int _ => .int
  | .str _ => .string
  | .bool _ => .bool
  | .container _ => .container

/-- The value as arithmetic and comparisons see it: text counts if all of it is an integer. -/
def coerceInt? : Value → Option Int64
  | .int n => some n
  | .str s => Text.readInt64? s
  | _ => none

/-- The value as conditions and logic see it: text counts if it is `true` or `false`. -/
def coerceBool? : Value → Option Bool
  | .bool b => some b
  | .str s => readBool? s
  | _ => none

end Value
end PageTemplate
