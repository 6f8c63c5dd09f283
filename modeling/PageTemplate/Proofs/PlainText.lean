import PageTemplate.Proofs.Delivery
import PageTemplate.Proofs.Stretches

namespace PageTemplate

open Network

/-- No block opens in a text. -/
def Plain (cs : List Char) : Prop := ¬['{', '{'] <:+: cs

theorem Plain.part {part cs : List Char} (h : Plain cs) (hpart : part <:+: cs) : Plain part :=
  fun hopens => h (hopens.trans hpart)

namespace Lexer

end Lexer

namespace Evaluation

variable (world : World) (document : Document)

end Evaluation

namespace Job

variable {job : Job}

end Job

end PageTemplate
