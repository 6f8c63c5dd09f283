import PageTemplate.Proofs.Lookahead

/-!
The rules that the automaton is in the middle of in each state. The table moves on over a symbol
exactly where such a rule asks for it, and rebuilds by a rule wherever the rule is complete and a
token that can follow its left-hand side comes next. All of it is checked state by state.
-/

namespace PageTemplate
namespace Table

/-- The rules begun in a state, each with the number of symbols that have been read of it. -/
def begun : Array (List (Rule × Nat)) := #[
  -- from 0 on
  [], [(.block, 1), (.ifStatement, 1), (.forParenthesized, 1), (.forBare, 1)],
  [(.printBlock, 1)], [(.start, 1)], [(.unitBlock, 1)],
  -- from 5 on
  [(.unitPrintBlock, 1)], [(.unitIf, 1)], [(.unitFor, 1)],
  [(.simpleName, 1), (.funcCall, 1)], [(.dottedName, 1)],
  -- from 10 on
  [(.stringLiteral, 1)], [(.numberLiteral, 1)], [(.boolLiteral, 1)], [(.parenthesized, 1)],
  [(.negate, 1)],
  -- from 15 on
  [(.not, 1)], [(.printBlock, 2)], [(.exprLogic, 1), (.logic, 1)],
  [(.logicRel, 1), (.relation, 1)], [(.relAdd, 1), (.plus, 1), (.minus, 1)],
  -- from 20 on
  [(.addMult, 1), (.mult, 1)], [(.multUnary, 1)], [(.unaryTerm, 1)],
  [(.assignment, 1), (.termVar, 1)], [(.termCall, 1)],
  -- from 25 on
  [(.assignment, 2)], [(.assignment, 3)], [(.mult, 2)], [(.mult, 3)], [(.termVar, 1)],
  -- from 30 on
  [(.funcCall, 2)], [(.argFirst, 1)], [(.funcCall, 3)], [(.argsSome, 1), (.argAppend, 1)],
  [(.argAppend, 2)],
  -- from 35 on
  [(.argAppend, 3)], [(.funcCall, 4)], [(.plus, 2)], [(.minus, 2)],
  [(.minus, 3), (.mult, 1)],
  -- from 40 on
  [(.plus, 3), (.mult, 1)], [(.relation, 2)], [(.relation, 3), (.plus, 1), (.minus, 1)],
  [(.logic, 2)], [(.logic, 3), (.relation, 1)],
  -- from 45 on
  [(.not, 2)], [(.negate, 2)], [(.parenthesized, 2)], [(.parenthesized, 3)],
  [(.printBlock, 3)],
  -- from 50 on
  [(.ifStatement, 2)], [(.forParenthesized, 2), (.forBare, 2)],
  [(.block, 2), (.statementAppend, 1), (.statementTrailing, 1)], [(.statementFirst, 1)],
  [(.block, 3)],
  -- from 55 on
  [(.statementAppend, 2), (.statementTrailing, 2)], [(.statementAppend, 3)],
  [(.forBare, 3)], [(.forParenthesized, 3)], [(.forParenthesized, 4)],
  -- from 60 on
  [(.forParenthesized, 5)], [(.loopString, 1)], [(.loopVar, 1)], [(.loopCall, 1)],
  [(.forParenthesized, 6)],
  -- from 65 on
  [(.forParenthesized, 7)], [(.forParenthesized, 8)],
  [(.forParenthesized, 9), (.contentAppend, 1)],
  [(.forParenthesized, 10), (.block, 1), (.ifStatement, 1), (.forParenthesized, 1), (.forBare, 1)],
  [(.itemText, 1)],
  -- from 70 on
  [(.itemBlock, 1)], [(.itemPrintBlock, 1)], [(.itemIf, 1)], [(.itemFor, 1)],
  [(.contentAppend, 2)],
  -- from 75 on
  [(.forParenthesized, 11)], [(.forParenthesized, 12)], [(.forBare, 4)], [(.forBare, 5)],
  [(.forBare, 6)],
  -- from 80 on
  [(.forBare, 7), (.contentAppend, 1)],
  [(.forBare, 8), (.block, 1), (.ifStatement, 1), (.forParenthesized, 1), (.forBare, 1)],
  [(.forBare, 9)], [(.forBare, 10)], [(.ifStatement, 3)],
  -- from 85 on
  [(.ifStatement, 4)], [(.ifStatement, 5), (.contentAppend, 1)],
  [(.block, 1), (.ifStatement, 1), (.elseIfTail, 1), (.elseTail, 1), (.endTail, 1),
    (.forParenthesized, 1), (.forBare, 1)],
  [(.ifStatement, 6)], [(.elseIfTail, 2)],
  -- from 90 on
  [(.elseTail, 2)], [(.endTail, 2)], [(.endTail, 3)], [(.elseTail, 3)],
  [(.elseTail, 4), (.contentAppend, 1)],
  -- from 95 on
  [(.elseTail, 5), (.block, 1), (.ifStatement, 1), (.forParenthesized, 1), (.forBare, 1)],
  [(.elseTail, 6)], [(.elseTail, 7)], [(.elseIfTail, 3)], [(.elseIfTail, 4)],
  -- from 100 on
  [(.elseIfTail, 5), (.contentAppend, 1)], [(.elseIfTail, 6)]]

/-- Whether a state is in a rule of which so many symbols have been read. A rule of which nothing
has been read is under way where the phrase that it builds leads on. -/
def underWay (state : State) (rule : Rule) : Nat → Bool
  | 0 => (goto? state rule.lhs).isSome || (state == 0 && rule == .start)
  | read + 1 => (begun[state]?.getD []).contains (rule, read + 1)

def next? (state : State) : GrammarSymbol → Option State
  | .terminal t =>
    match action? state t with
    | some (.shift next) => some next
    | _ => none
  | .phrase n => goto? state n

end Table

theorem Terminal.mem_all (t : Terminal) : t ∈ Terminal.all := by
  cases t <;> decide

theorem Nonterminal.mem_all (n : Nonterminal) : n ∈ Nonterminal.all := by
  cases n <;> decide

namespace Table

theorem mem_range_of_action {state : State} {t : Terminal} {action : Action}
    (h : action? state t = some action) : state ∈ List.range 102 := by
  obtain ⟨row, hrow, _⟩ := Option.bind_eq_some_iff.1 h
  exact List.mem_range.2 (Array.getElem?_eq_some_iff.1 hrow).1

theorem mem_range_of_goto {state next : State} {n : Nonterminal}
    (h : goto? state n = some next) : state ∈ List.range 102 := by
  obtain ⟨row, hrow, _⟩ := Option.bind_eq_some_iff.1 h
  exact List.mem_range.2 (Array.getElem?_eq_some_iff.1 hrow).1

/-- Over a token the automaton goes where the table shifts. -/
theorem next_terminal {state next : State} {t : Terminal} :
    next? state (.terminal t) = some next ↔ action? state t = some (.shift next) := by
  cases h : action? state t with
  | none => simp [next?, h]
  | some action => cases action <;> simp [next?, h]

theorem next_phrase {state next : State} {n : Nonterminal} :
    next? state (.phrase n) = some next ↔ goto? state n = some next := Iff.rfl

/-- Only the states of the table lead anywhere. -/
theorem mem_range_of_next {state next : State} {symbol : GrammarSymbol}
    (h : next? state symbol = some next) : state ∈ List.range 102 := by
  cases symbol with
  | terminal t => exact mem_range_of_action (next_terminal.1 h)
  | phrase n => exact mem_range_of_goto h

theorem mem_shifts_of_next {state next : State} {t : Terminal}
    (h : next? state (.terminal t) = some next) :
    ∃ row ∈ rows[state]?, (t, next) ∈ row.shifts := by
  obtain ⟨row, hrow, hrow'⟩ := Option.bind_eq_some_iff.1 (next_terminal.1 h)
  refine ⟨row, hrow, ?_⟩
  unfold Row.action? at hrow'
  split at hrow'
  · next found hfound =>
    injection hrow' with hrow'
    injection hrow' with hrow'
    obtain ⟨front, back, hl, _⟩ := List.lookup_eq_some_iff.1 hfound
    rw [hl, hrow']
    exact List.mem_append_right _ List.mem_cons_self
  · split at hrow'
    · simp at hrow'
    · split at hrow' <;> simp at hrow'

theorem mem_gotos_of_goto {state next : State} {n : Nonterminal}
    (h : goto? state n = some next) : ∃ row ∈ rows[state]?, (n, next) ∈ row.gotos := by
  obtain ⟨row, hrow, hn⟩ := Option.bind_eq_some_iff.1 h
  obtain ⟨front, back, hl, _⟩ := List.lookup_eq_some_iff.1 hn
  refine ⟨row, hrow, ?_⟩
  rw [hl]
  exact List.mem_append_right _ List.mem_cons_self

/-- A rule is applied where its row of the table says so. -/
theorem mem_reductions_of_action {state : State} {t : Terminal} {rule : Rule}
    (h : action? state t = some (.reduce rule)) :
    ∃ row ∈ rows[state]?, ∃ entry ∈ row.reductions, entry.1 = rule := by
  obtain ⟨row, hrow, hrow'⟩ := Option.bind_eq_some_iff.1 h
  refine ⟨row, hrow, ?_⟩
  unfold Row.action? at hrow'
  split at hrow'
  · simp at hrow'
  · split at hrow'
    · next entry hfind =>
      injection hrow' with hrow'
      injection hrow' with hrow'
      exact ⟨entry, List.mem_of_find?_eq_some hfind, hrow'⟩
    · split at hrow' <;> simp at hrow'

/-- Where the rules come from that have been begun in the state behind an edge. -/
def Backward (state next : State) (symbol : GrammarSymbol) : Prop :=
  ∀ entry ∈ begun[next]?.getD [],
    entry.1.rhs[entry.2 - 1]? = some symbol ∧ underWay state entry.1 (entry.2 - 1) = true

instance (state next : State) (symbol : GrammarSymbol) : Decidable (Backward state next symbol) :=
  inferInstanceAs (Decidable (∀ entry ∈ begun[next]?.getD [], _ ∧ _))

def Forward (state : State) (rule : Rule) (read : Nat) : Prop :=
  ∀ symbol ∈ rule.rhs[read]?, ∃ next ∈ next? state symbol, underWay next rule (read + 1) = true

instance (state : State) (rule : Rule) (read : Nat) : Decidable (Forward state rule read) :=
  inferInstanceAs (Decidable (∀ symbol ∈ rule.rhs[read]?, ∃ next ∈ next? state symbol, _))

def rulesFor (n : Nonterminal) : List Rule := Rule.all.filter fun rule => rule.lhs = n

/-- What is checked of the table, state by state. -/
structure Coherent : Prop where
  /-- A symbol that leads into a state has been read last of all rules begun there. -/
  backward : ∀ state ∈ List.range 102, ∀ row ∈ rows[state]?,
    (∀ edge ∈ row.shifts, Backward state edge.2 (.terminal edge.1)) ∧
      ∀ edge ∈ row.gotos, Backward state edge.2 (.phrase edge.1)
  /-- The rules begun in a state go on from there. -/
  forward : ∀ state ∈ List.range 102, ∀ entry ∈ begun[state]?.getD [],
    Forward state entry.1 entry.2
  /-- The rules for a phrase that leads on from a state go on from there as well. -/
  fresh : ∀ state ∈ List.range 102, ∀ row ∈ rows[state]?, ∀ edge ∈ row.gotos,
    ∀ rule ∈ rulesFor edge.1, Forward state rule 0
  /-- Nothing leads on over a start. -/
  start : ∀ state ∈ List.range 102, goto? state .start = none
  /-- A complete rule is applied before every token that can stand behind its left-hand side. -/
  complete : ∀ state ∈ List.range 102, ∀ entry ∈ begun[state]?.getD [],
    entry.2 = entry.1.rhs.length → entry.1 ≠ .start → ∀ t ∈ entry.1.lhs.follow,
      action? state t = some (.reduce entry.1)
  /-- So is a rule without symbols, wherever its left-hand side leads on. -/
  empty : ∀ state ∈ List.range 102, ∀ row ∈ rows[state]?, ∀ edge ∈ row.gotos,
    ∀ rule ∈ rulesFor edge.1, rule.rhs = [] → ∀ t ∈ edge.1.follow,
      action? state t = some (.reduce rule)
  /-- Only complete rules are applied. -/
  reductions : ∀ state ∈ List.range 102, ∀ row ∈ rows[state]?, ∀ entry ∈ row.reductions,
    underWay state entry.1 entry.1.rhs.length = true ∧ entry.1 ≠ .start
  /-- The input is accepted in one state, at its end. -/
  accept : ∀ state ∈ List.range 102, ∀ t ∈ Terminal.all,
    action? state t = some .accept → state = 3 ∧ t = .endOfInput
  /-- Only a whole unit leads into the accepting state, and that from the first state, into which
  nothing leads. -/
  unit : ∀ state ∈ List.range 102, ∀ row ∈ rows[state]?,
    (∀ edge ∈ row.shifts, edge.2 ≠ 3 ∧ edge.2 ≠ 0) ∧
      ∀ edge ∈ row.gotos, (edge.2 = 3 → state = 0 ∧ edge.1 = .unit) ∧ edge.2 ≠ 0
  /-- Where something is done at the end of the input, nothing but the same reduction is done
  before a token. -/
  ending : ∀ state ∈ List.range 102, ∀ last ∈ action? state .endOfInput,
    ∀ t ∈ Terminal.all, t ≠ .endOfInput → ∀ action ∈ action? state t,
      action = last ∧ ∃ rule ∈ Rule.all, action = .reduce rule
  /-- Of all tokens a closing delimiter alone leads into such a state. -/
  close : ∀ state ∈ List.range 102, ∀ row ∈ rows[state]?, ∀ edge ∈ row.shifts,
    edge.1 ≠ .endOfInput ∧ ((action? edge.2 .endOfInput).isSome = true → edge.1 = .blockClose)

/-- Checked state by state. -/
theorem coherent : Coherent where
  backward := by decide +kernel
  forward := by decide +kernel
  fresh := by decide +kernel
  start := by decide +kernel
  complete := by decide +kernel
  empty := by decide +kernel
  reductions := by decide +kernel
  accept := by decide +kernel
  unit := by decide +kernel
  ending := by decide +kernel
  close := by decide +kernel

end Table
end PageTemplate
