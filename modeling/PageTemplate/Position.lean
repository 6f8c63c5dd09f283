import PageTemplate.Text.Decimal

namespace PageTemplate

/-- Line and column, both counted from one; a column counts characters. -/
structure Position where
  line : Nat
  column : Nat
  deriving DecidableEq

def Position.shown (p : Position) : String :=
  Text.decimalNat p.line ++ ":" ++ Text.decimalNat p.column

end PageTemplate
