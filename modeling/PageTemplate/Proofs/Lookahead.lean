import PageTemplate.Proofs.Derivation

/-!
Which tokens a phrase can begin with and which can stand behind it. Both are read off the rules: a
finite check of each rule carries over to derivations of any depth.
-/

namespace PageTemplate

namespace Nonterminal

def nullable : Nonterminal → Bool
  | .args | .content => true
  | _ => false

def operandStart : List Terminal :=
  [.identifier, .dottedName, .string, .number, .bool, .leftParen, .minus, .bang]

def starts : Nonterminal → List Terminal
  | .start | .unit => [.blockOpen, .printOpen]
  | .block | .ifStatement | .ifRest | .forLoop => [.blockOpen]
  | .printBlock => [.printOpen]
  | .statementList | .expression | .logicExpr | .relationExpr | .addExpr | .multExpr | .unaryExpr
  | .term | .args | .argList => operandStart
  | .varRef => [.identifier, .dottedName]
  | .funcCall => [.identifier]
  | .loopInput => [.identifier, .dottedName, .string]
  | .content | .item => Table.bodyStart

/-- What can stand behind a phrase. -/
def follow : Nonterminal → List Terminal
  | .start | .unit => [.endOfInput]
  | .block | .printBlock | .ifStatement | .ifRest | .forLoop => Table.afterItem
  | .statementList => [.blockClose, .semicolon]
  | .expression => [.blockClose, .rightParen, .comma, .semicolon]
  | .logicExpr => [.blockClose, .rightParen, .comma, .semicolon, .logicOp]
  | .relationExpr => [.blockClose, .rightParen, .comma, .semicolon, .logicOp, .relationOp]
  | .addExpr =>
    [.blockClose, .rightParen, .comma, .semicolon, .logicOp, .relationOp, .plus, .minus]
  | .multExpr | .unaryExpr | .term | .funcCall => Table.afterOperand
  | .varRef => Table.afterOperand ++ [.assign]
  | .args => [.rightParen]
  | .argList => [.rightParen, .comma]
  | .loopInput => [.blockClose, .rightParen]
  | .content | .item => Table.bodyStart

end Nonterminal

namespace GrammarSymbol

def nullable : GrammarSymbol → Bool
  | .terminal _ => false
  | .phrase n => n.nullable

def starts : GrammarSymbol → List Terminal
  | .terminal t => [t]
  | .phrase n => n.starts

def Follows (t : Terminal) : GrammarSymbol → Prop
  | .terminal _ => True
  | .phrase n => t ∈ n.follow

def startsBefore (after : List Terminal) : List GrammarSymbol → List Terminal
  | [] => after
  | symbol :: rest =>
    if symbol.nullable then symbol.starts ++ startsBefore after rest else symbol.starts

/-- What may stand behind symbols can only add to their first tokens. -/
theorem startsBefore_mono {first after : List Terminal} (h : ∀ t ∈ first, t ∈ after)
    (symbols : List GrammarSymbol) :
    ∀ t ∈ startsBefore first symbols, t ∈ startsBefore after symbols := by
  induction symbols with
  | nil => exact h
  | cons symbol rest ih =>
    intro t ht
    unfold startsBefore at ht ⊢
    split
    · next hn =>
      rw [if_pos hn] at ht
      rcases List.mem_append.1 ht with hs | hr
      · exact List.mem_append_left _ hs
      · exact List.mem_append_right _ (ih t hr)
    · next hn => rwa [if_neg hn] at ht

theorem mem_startsBefore_of_nullable {after : List Terminal} {symbols : List GrammarSymbol}
    (h : symbols.all nullable = true) {t : Terminal} (ht : t ∈ after) :
    t ∈ startsBefore after symbols := by
  induction symbols with
  | nil => exact ht
  | cons symbol rest ih =>
    obtain ⟨hs, hr⟩ : symbol.nullable = true ∧ rest.all nullable = true := by simpa using h
    rw [startsBefore, if_pos hs]
    exact List.mem_append_right _ (ih hr)

end GrammarSymbol

namespace Rule

theorem mem_all (rule : Rule) : rule ∈ all := by
  cases rule <;> decide

/-- Checked rule by rule. -/
theorem starts_of_rhs : ∀ rule ∈ all,
    ∀ t ∈ GrammarSymbol.startsBefore [] rule.rhs, t ∈ rule.lhs.starts := by
  decide +kernel

theorem nullable_of_rhs : ∀ rule ∈ all,
    rule.rhs.all GrammarSymbol.nullable = true → rule.lhs.nullable = true := by
  decide +kernel

/-- Checked rule by rule, at each phrase on the right-hand side. -/
theorem follow_of_rhs : ∀ rule ∈ all, ∀ k ∈ List.range rule.rhs.length,
    ∀ n ∈ Nonterminal.all, rule.rhs[k]? = some (.phrase n) →
      ∀ t ∈ GrammarSymbol.startsBefore rule.lhs.follow (rule.rhs.drop (k + 1)), t ∈ n.follow := by
  decide +kernel

/-- In a rule, whatever the rest can begin with or is followed by can stand behind a symbol. -/
theorem follows_of_rhs {rule : Rule} {k : Nat} {symbol : GrammarSymbol} {t : Terminal}
    (hk : rule.rhs[k]? = some symbol)
    (ht : t ∈ GrammarSymbol.startsBefore rule.lhs.follow (rule.rhs.drop (k + 1))) :
    symbol.Follows t := by
  cases symbol with
  | terminal _ => exact trivial
  | phrase n =>
    have hlt : k < rule.rhs.length := (List.getElem?_eq_some_iff.1 hk).1
    have hn : n ∈ Nonterminal.all := by cases n <;> decide
    exact follow_of_rhs rule rule.mem_all k (List.mem_range.2 hlt) n hn hk t ht

end Rule

def nextTerminal : List Token → Terminal
  | [] => .endOfInput
  | token :: _ => token.terminal?.getD .endOfInput

theorem nextTerminal_cons {token : Token} {t : Terminal} (read : token.terminal? = some t)
    (rest : List Token) : nextTerminal (token :: rest) = t := by
  simp only [nextTerminal, read, Option.getD_some]

theorem nextTerminal_append {front : List Token} (h : front ≠ []) (back : List Token) :
    nextTerminal (front ++ back) = nextTerminal front := by
  cases front with
  | nil => exact absurd rfl h
  | cons token front => rfl

mutual

/-- Only a phrase that may be empty is derived without tokens. -/
theorem Derivation.nullable_of_yield {symbol : GrammarSymbol} (d : Derivation symbol)
    (h : d.yield = []) : symbol.nullable = true := by
  cases d with
  | leaf token read => simp [Derivation.yield] at h
  | node rule builds parts =>
    have hparts := parts.nullable_of_yield h
    have hrule := Rule.nullable_of_rhs rule rule.mem_all hparts
    rwa [builds] at hrule

theorem Derivations.nullable_of_yield {symbols : List GrammarSymbol} (ds : Derivations symbols)
    (h : ds.yield = []) : symbols.all GrammarSymbol.nullable = true := by
  cases ds with
  | nil => rfl
  | cons first rest =>
    obtain ⟨hf, hr⟩ := List.append_eq_nil_iff.1 h
    rw [List.all_cons, first.nullable_of_yield hf, rest.nullable_of_yield hr]
    rfl

end

mutual

/-- By induction on derivations: the first token is one that the phrase can begin with. -/
theorem Derivation.nextTerminal_mem {symbol : GrammarSymbol} (d : Derivation symbol)
    (h : d.yield ≠ []) : nextTerminal d.yield ∈ symbol.starts := by
  cases d with
  | leaf token read =>
    simp only [Derivation.yield, nextTerminal, read, Option.getD_some]
    exact List.mem_singleton.2 rfl
  | node rule builds parts =>
    have hparts := parts.nextTerminal_mem h
    have hrule := Rule.starts_of_rhs rule rule.mem_all _ hparts
    rwa [builds] at hrule

theorem Derivations.nextTerminal_mem {symbols : List GrammarSymbol} (ds : Derivations symbols)
    (h : ds.yield ≠ []) : nextTerminal ds.yield ∈ GrammarSymbol.startsBefore [] symbols := by
  cases ds with
  | nil => exact absurd rfl h
  | @cons symbol symbols first rest =>
    simp only [Derivations.yield, GrammarSymbol.startsBefore] at h ⊢
    by_cases hf : first.yield = []
    · rw [hf, List.nil_append] at h ⊢
      rw [if_pos (first.nullable_of_yield hf)]
      exact List.mem_append_right _ (rest.nextTerminal_mem h)
    · rw [nextTerminal_append hf]
      have hfirst := first.nextTerminal_mem hf
      split
      · exact List.mem_append_left _ hfirst
      · exact hfirst

end

/-- Derivations side by side and what stands behind them begin as the grammar says. -/
theorem Derivations.nextTerminal_append_mem {symbols : List GrammarSymbol}
    (ds : Derivations symbols) {after : List Terminal} {rest : List Token}
    (h : nextTerminal rest ∈ after) :
    nextTerminal (ds.yield ++ rest) ∈ GrammarSymbol.startsBefore after symbols := by
  by_cases hy : ds.yield = []
  · rw [hy, List.nil_append]
    exact GrammarSymbol.mem_startsBefore_of_nullable (ds.nullable_of_yield hy) h
  · rw [nextTerminal_append hy]
    have hfirst : ∀ t ∈ ([] : List Terminal), t ∈ after := fun t ht => absurd ht List.not_mem_nil
    exact GrammarSymbol.startsBefore_mono hfirst symbols _ (ds.nextTerminal_mem hy)

end PageTemplate
