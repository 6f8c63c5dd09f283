import PageTemplate.Grammar.Table

/-!
A measure that every rebuilding step of the automaton decreases, so that the steps taken before one
token are finitely many. A rule with one symbol lowers the weight of the last symbol, a longer rule
shortens the stack, and the two empty rules apply only after a terminal, which outweighs a whole
further entry.
-/

namespace PageTemplate

def Nonterminal.weight : Nonterminal → Nat
  | .start | .statementList | .args | .loopInput | .content | .ifRest => 0
  | .unit | .item | .argList => 1
  | .block | .printBlock | .ifStatement | .forLoop | .expression => 2
  | .logicExpr => 3
  | .relationExpr => 4
  | .addExpr => 5
  | .multExpr => 6
  | .unaryExpr => 7
  | .term => 8
  | .varRef | .funcCall => 9

def GrammarSymbol.weight : GrammarSymbol → Nat
  | .terminal _ => 12
  | .phrase n => n.weight

namespace Table

def weight (state : State) : Nat :=
  match rows[state]?.bind Row.entered with
  | some symbol => symbol.weight
  | none => 0

/-- The measure of a stack of states, the last one first. -/
def stackWeight (states : List State) : Nat := 11 * states.length + weight (states.headD 0)

theorem gotos_entered : ∀ row ∈ rows.toList, ∀ entry ∈ row.gotos,
    rows[entry.2]?.bind Row.entered = some (.phrase entry.1) := by
  decide +kernel

theorem reductions_weight : ∀ row ∈ rows.toList, ∀ entry ∈ row.reductions,
    11 + entry.1.lhs.weight <
      11 * entry.1.rhs.length + (row.entered.elim 0 GrammarSymbol.weight) := by
  decide +kernel

theorem weight_goto {state next : State} {n : Nonterminal} (h : goto? state n = some next) :
    weight next = n.weight := by
  obtain ⟨row, hrow, hn⟩ := Option.bind_eq_some_iff.1 h
  have hmem : row ∈ rows.toList := by
    obtain ⟨hlt, rfl⟩ := Array.getElem?_eq_some_iff.1 hrow
    exact Array.getElem_mem_toList hlt
  have hentry : (n, next) ∈ row.gotos := by
    obtain ⟨l₁, l₂, hl, _⟩ := List.lookup_eq_some_iff.1 hn
    simp [hl]
  have := gotos_entered row hmem _ hentry
  simp only [weight, this, GrammarSymbol.weight]

theorem reduce_weight {state : State} {t : Terminal} {rule : Rule}
    (h : action? state t = some (.reduce rule)) :
    11 + rule.lhs.weight < 11 * rule.rhs.length + weight state := by
  obtain ⟨row, hrow, ht⟩ := Option.bind_eq_some_iff.1 h
  have hmem : row ∈ rows.toList := by
    obtain ⟨hlt, rfl⟩ := Array.getElem?_eq_some_iff.1 hrow
    exact Array.getElem_mem_toList hlt
  have hentry : ∃ ts, (rule, ts) ∈ row.reductions := by
    unfold Row.action? at ht
    split at ht
    · simp at ht
    · split at ht
      · next entry hfind =>
        injection ht with ht
        injection ht with ht
        exact ⟨entry.2, ht ▸ List.mem_of_find?_eq_some hfind⟩
      · split at ht <;> simp at ht
  obtain ⟨ts, hts⟩ := hentry
  have := reductions_weight row hmem _ hts
  cases hentered : row.entered <;>
    simpa [weight, hrow, hentered] using this

/-- Rebuilding by a rule that the table asks for makes the stack lighter. -/
theorem stackWeight_reduce_lt {states : List State} {t : Terminal} {rule : Rule} {next : State}
    (haction : action? (states.headD 0) t = some (.reduce rule))
    (hlen : rule.rhs.length ≤ states.length)
    (hgoto : goto? ((states.drop rule.rhs.length).headD 0) rule.lhs = some next) :
    stackWeight (next :: states.drop rule.rhs.length) < stackWeight states := by
  have h := reduce_weight haction
  simp only [stackWeight, List.length_cons, List.length_drop, List.headD_cons,
    weight_goto hgoto]
  omega

end Table
end PageTemplate
