import PageTemplate.Position
import PageTemplate.Value

namespace PageTemplate

inductive ArgumentFault
  | count (expected found : Nat)
  | missing (index : Nat)
  | notAnInt (index : Nat) (found : ValueType)
  | notAString (index : Nat) (found : ValueType)
  | noLength (found : ValueType)
  | itemsPerPage (given : Int64)
  | currentPage (given : Int64)
  deriving DecidableEq

def ArgumentFault.message : ArgumentFault → String
  | .count expected found =>
    "expected " ++ Text.decimalNat expected ++ " arguments, got " ++ Text.decimalNat found
  | .missing index => "missing argument " ++ Text.decimalNat index
  | .notAnInt index found =>
    "argument " ++ Text.decimalNat index ++ " must be an int, got " ++ found.name
  | .notAString index found =>
    "argument " ++ Text.decimalNat index ++ " must be a string, got " ++ found.name
  | .noLength found => "cannot take length of " ++ found.name
  | .itemsPerPage given =>
    "expected number of items per page to be > 0, got " ++ Text.decimal given
  | .currentPage given => "expected current page to be > 0, got " ++ Text.decimal given

inductive EvalError
  | undefinedVariable (name : String) (pos : Position)
  | unknownFunction (name : String) (pos : Position)
  | unknownTemplate (key : String)
  /-- An operator between values that it does not apply to. -/
  | operandTypes (op : String) (left right : ValueType) (pos : Position)
  | operandType (op : String) (operand : ValueType) (pos : Position)
  | conditionType (found : ValueType) (pos : Position)
  | notIterable (found : ValueType) (pos : Position)
  | divisionByZero (pos : Position)
  | integerOverflow (pos : Position)
  /-- An assignment where a value is asked for. -/
  | noValue (pos : Position)
  | invalidArgument (function : String) (fault : ArgumentFault)
  | contentUnavailable (path reason : String)
  | interrupted
  /-- A template included while as many inclusions as allowed were under way. -/
  | inclusionTooDeep (depth : Nat) (key : String)
  deriving DecidableEq

inductive ErrorCategory
  | name | typeMismatch | io | cancelled
  deriving DecidableEq

namespace EvalError

def message : EvalError → String
  | .undefinedVariable name pos => "undefined variable: " ++ name ++ " at " ++ pos.shown
  | .unknownFunction name pos => "unknown function: " ++ name ++ " at " ++ pos.shown
  | .unknownTemplate key => "unknown template: " ++ key
  | .operandTypes op left right pos =>
    "type mismatch: cannot apply '" ++ op ++ "' to " ++ left.name ++ " and " ++ right.name ++
      " at " ++ pos.shown
  | .operandType op operand pos =>
    "type mismatch: cannot apply '" ++ op ++ "' to " ++ operand.name ++ " at " ++ pos.shown
  | .conditionType found pos =>
    "type mismatch: expected bool condition, got " ++ found.name ++ " at " ++ pos.shown
  | .notIterable found pos =>
    "type mismatch: cannot iterate over " ++ found.name ++ " at " ++ pos.shown
  | .divisionByZero pos => "division by zero at " ++ pos.shown
  | .integerOverflow pos => "integer overflow at " ++ pos.shown
  | .noValue pos => "expression produces no value at " ++ pos.shown
  | .invalidArgument function fault => function ++ ": " ++ fault.message
  | .contentUnavailable path reason => "cannot list content " ++ path ++ ": " ++ reason
  | .interrupted => "evaluation interrupted"
  | .inclusionTooDeep depth key =>
    "template inclusion depth exceeded (" ++ Text.decimalNat depth ++ ") while including " ++ key

/-- The broad kind of failure; whatever is not about names, files or an interruption is a
mismatch. -/
def category : EvalError → ErrorCategory
  | .undefinedVariable _ _ | .unknownFunction _ _ | .unknownTemplate _ => .name
  | .contentUnavailable _ _ => .io
  | .interrupted => .cancelled
  | _ => .typeMismatch

end EvalError
end PageTemplate
