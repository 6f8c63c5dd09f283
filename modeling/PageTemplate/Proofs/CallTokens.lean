import PageTemplate.Proofs.Pieces

namespace PageTemplate

mutual

inductive Derivation.Within {n : Nonterminal} (part : Derivation (.phrase n)) :
    {symbol : GrammarSymbol} → Derivation symbol → Prop
  | self : part.Within part
  | parts {m : Nonterminal} {rule : Rule} {builds : rule.lhs = m} {parts : Derivations rule.rhs} :
    parts.Contains part → part.Within (.node rule builds parts)

inductive Derivations.Contains {n : Nonterminal} (part : Derivation (.phrase n)) :
    {symbols : List GrammarSymbol} → Derivations symbols → Prop
  | first {symbol : GrammarSymbol} {symbols : List GrammarSymbol} {first : Derivation symbol}
    {rest : Derivations symbols} : part.Within first → (Derivations.cons first rest).Contains part
  | rest {symbol : GrammarSymbol} {symbols : List GrammarSymbol} {first : Derivation symbol}
    {rest : Derivations symbols} : rest.Contains part → (Derivations.cons first rest).Contains part

end

mutual

/-- The tokens of a part stand side by side in the whole. -/
theorem Derivation.Within.yield_isInfix {n : Nonterminal} {part : Derivation (.phrase n)}
    {symbol : GrammarSymbol} {whole : Derivation symbol} (h : part.Within whole) :
    part.yield <:+: whole.yield := by
  cases h with
  | self => exact List.infix_rfl
  | parts hparts => exact hparts.yield_isInfix

theorem Derivations.Contains.yield_isInfix {n : Nonterminal} {part : Derivation (.phrase n)}
    {symbols : List GrammarSymbol} {whole : Derivations symbols} (h : whole.Contains part) :
    part.yield <:+: whole.yield := by
  cases h with
  | first hfirst => exact hfirst.yield_isInfix.trans (List.prefix_append _ _).isInfix
  | rest hrest => exact hrest.yield_isInfix.trans (List.suffix_append _ _).isInfix

end

/-- What stands at a place in two lists one after the other stands in one of them. -/
theorem cut_append {α : Type} {left right front back : List α} {a : α}
    (h : left ++ right = front ++ a :: back) :
    (∃ middle, left = front ++ a :: middle ∧ back = middle ++ right) ∨
      ∃ middle, front = left ++ middle ∧ right = middle ++ a :: back := by
  rcases List.append_eq_append_iff.1 h with ⟨middle, hfront, hright⟩ | ⟨middle, hleft, hback⟩
  · exact .inr ⟨middle, hfront, hright⟩
  · rcases List.cons_eq_append_iff.1 hback with ⟨rfl, hright⟩ | ⟨others, rfl, hback⟩
    · exact .inr ⟨[], by rw [hleft, List.append_nil, List.append_nil], hright⟩
    · exact .inl ⟨others, hleft, (List.cons.inj hback).2⟩

namespace Rule

/-- Only a call has a name in front of an opening parenthesis. -/
theorem eq_funcCall_of_name : ∀ rule ∈ all, ∀ k ∈ List.range rule.rhs.length,
    rule.rhs[k]? = some (.terminal .identifier) →
      Terminal.leftParen ∈ GrammarSymbol.startsBefore rule.lhs.follow (rule.rhs.drop (k + 1)) →
        rule = .funcCall ∧ k = 0 := by
  decide +kernel

end Rule

mutual

/-- A name in front of an opening parenthesis begins a call. -/
theorem Derivation.call_of_name {symbol : GrammarSymbol} (d : Derivation symbol)
    {front back after : List Token} {name : Token} (hyield : d.yield = front ++ name :: back)
    (hname : name.terminal? = some .identifier)
    (hopen : nextTerminal (back ++ after) = .leftParen)
    (hafter : symbol.Follows (nextTerminal after)) :
    (symbol = .terminal .identifier ∧ front = [] ∧ back = []) ∨
      ∃ call : Derivation (.phrase .funcCall), call.Within d ∧
        ∃ rest, name :: back = call.yield ++ rest := by
  cases d with
  | @leaf t token read =>
    left
    rcases List.singleton_eq_append_iff.1 hyield with ⟨rfl, hback⟩ | ⟨-, habsurd⟩
    · cases hback
      rw [hname] at read
      cases read
      exact ⟨rfl, rfl, rfl⟩
    · cases habsurd
  | @node n rule builds parts =>
    right
    subst builds
    -- a name that is no part of a call further inside is the first part of this rule
    rcases parts.call_of_name (k := 0) rfl hyield hname hopen hafter with
      ⟨rfl, -, rfl⟩ | ⟨call, hcall, hrest⟩
    · exact ⟨.node .funcCall rfl parts, .self, [], by rw [List.append_nil]; exact hyield.symm⟩
    · exact ⟨call, .parts hcall, hrest⟩

theorem Derivations.call_of_name {symbols : List GrammarSymbol} (ds : Derivations symbols)
    {rule : Rule} {k : Nat} (hsymbols : rule.rhs.drop k = symbols)
    {front back after : List Token} {name : Token} (hyield : ds.yield = front ++ name :: back)
    (hname : name.terminal? = some .identifier)
    (hopen : nextTerminal (back ++ after) = .leftParen)
    (hafter : nextTerminal after ∈ rule.lhs.follow) :
    (rule = .funcCall ∧ k = 0 ∧ front = []) ∨
      ∃ call : Derivation (.phrase .funcCall), ds.Contains call ∧
        ∃ rest, name :: back = call.yield ++ rest := by
  cases ds with
  | nil => exact absurd hyield.symm (List.append_ne_nil_of_right_ne_nil _ (List.cons_ne_nil _ _))
  | @cons symbol symbols first rest =>
    have hk : rule.rhs[k]? = some symbol := by
      rw [← List.head?_drop, hsymbols]
      rfl
    have hlater : rule.rhs.drop (k + 1) = symbols := by
      rw [← List.drop_drop, hsymbols]
      rfl
    have hnext : nextTerminal (rest.yield ++ after) ∈
        GrammarSymbol.startsBefore rule.lhs.follow (rule.rhs.drop (k + 1)) := by
      rw [hlater]
      exact rest.nextTerminal_append_mem hafter
    rcases cut_append hyield with ⟨middle, hfirst, rfl⟩ | ⟨middle, -, hrest⟩
    · rw [List.append_assoc] at hopen
      rcases first.call_of_name hfirst hname hopen (Rule.follows_of_rhs hk hnext) with
        ⟨rfl, rfl, rfl⟩ | ⟨call, hcall, others, hothers⟩
      -- the name is all of this part, so the parenthesis is what the parts behind it begin with
      · rw [List.nil_append] at hopen
        rw [hopen] at hnext
        have hlt : k < rule.rhs.length := (List.getElem?_eq_some_iff.1 hk).1
        obtain ⟨hrule, hzero⟩ :=
          Rule.eq_funcCall_of_name rule rule.mem_all k (List.mem_range.2 hlt) hk hnext
        exact .inl ⟨hrule, hzero, rfl⟩
      · refine .inr ⟨call, .first hcall, others ++ rest.yield, ?_⟩
        rw [← List.append_assoc, ← hothers]
        rfl
    · rcases rest.call_of_name hlater hrest hname hopen hafter with
        ⟨-, habsurd, -⟩ | ⟨call, hcall, hothers⟩
      · exact absurd habsurd (Nat.succ_ne_zero k)
      · exact .inr ⟨call, .rest hcall, hothers⟩

end

/-! ### Parentheses -/

/-- How many parentheses are open after a token; none can be closed where none is open. -/
def Terminal.depthAfter (depth : Nat) : Terminal → Option Nat
  | .leftParen => some (depth + 1)
  | .rightParen => if depth = 0 then none else some (depth - 1)
  | _ => some depth

def GrammarSymbol.depthAfter (depth : Nat) : GrammarSymbol → Option Nat
  | .terminal t => t.depthAfter depth
  | .phrase _ => some depth

def Token.depthAfter (depth : Nat) (token : Token) : Option Nat :=
  match token.terminal? with
  | some t => t.depthAfter depth
  | none => some depth

/-- Whatever a rule opens it closes. -/
theorem Rule.balanced (rule : Rule) (depth : Nat) :
    rule.rhs.foldlM GrammarSymbol.depthAfter depth = some depth := by
  cases rule <;> rfl

mutual

/-- A phrase closes the parentheses that it opens and no others. -/
theorem Derivation.balanced {symbol : GrammarSymbol} (d : Derivation symbol) (depth : Nat) :
    d.yield.foldlM Token.depthAfter depth = symbol.depthAfter depth := by
  cases d with
  | leaf token read =>
    rw [Derivation.yield, List.foldlM_cons]
    simp only [Token.depthAfter, read, List.foldlM_nil, bind_pure]
    rfl
  | node rule builds parts =>
    have hparts := parts.balanced depth
    rwa [rule.balanced depth] at hparts

/-- The parentheses in a derivation close what they open. -/
theorem Derivations.balanced {symbols : List GrammarSymbol} (ds : Derivations symbols)
    (depth : Nat) :
    ds.yield.foldlM Token.depthAfter depth = symbols.foldlM GrammarSymbol.depthAfter depth := by
  cases ds with
  | nil => rfl
  | cons first rest =>
    rw [Derivations.yield, List.foldlM_append, List.foldlM_cons, first.balanced depth]
    cases hdepth : GrammarSymbol.depthAfter depth _ with
    | none => rfl
    | some next => exact rest.balanced next

end

/-- Balanced tokens in front of a parenthesis that closes another one end in one place. -/
theorem eq_of_balanced {front others back rest : List Token} {close last : Token}
    (hfront : front.foldlM Token.depthAfter 0 = some 0)
    (hothers : others.foldlM Token.depthAfter 0 = some 0)
    (hclose : close.terminal? = some .rightParen) (hlast : last.terminal? = some .rightParen)
    (h : front ++ close :: back = others ++ last :: rest) : front = others := by
  -- the longer one would close a parenthesis that it has not opened
  have hshorter {front others back : List Token} {close : Token}
      (hfront : front.foldlM Token.depthAfter 0 = some 0)
      (hothers : others.foldlM Token.depthAfter 0 = some 0)
      (hclose : close.terminal? = some .rightParen) : others ≠ front ++ close :: back := by
    rintro rfl
    rw [List.foldlM_append, hfront] at hothers
    simp [List.foldlM_cons, Token.depthAfter, hclose, Terminal.depthAfter] at hothers
  rcases cut_append h with ⟨middle, hfront', -⟩ | ⟨middle, hothers', hback⟩
  · exact absurd hfront' (hshorter hothers hfront hlast)
  · cases middle with
    | nil => rw [hothers', List.append_nil]
    | cons token middle =>
      obtain ⟨rfl, -⟩ := List.cons.inj hback
      exact absurd hothers' (hshorter hfront hothers hclose)

/-! ### One derivation for a call -/

namespace Derivation

def ofCall (name : Token) (hname : name.terminal? = some .identifier) (opening : Token)
    (hopening : opening.terminal? = some .leftParen) (args : Derivation (.phrase .args))
    (closing : Token) (hclosing : closing.terminal? = some .rightParen) :
    Derivation (.phrase .funcCall) :=
  .node .funcCall rfl (.cons (.leaf name hname) (.cons (.leaf opening hopening)
    (.cons args (.cons (.leaf closing hclosing) .nil))))

/-- All derivations of calls have the same form. -/
theorem eq_ofCall (call : Derivation (.phrase .funcCall)) :
    ∃ name hname opening hopening args closing hclosing,
      call = ofCall name hname opening hopening args closing hclosing := by
  match call with
  | .node .funcCall rfl (.cons (.leaf name hname) (.cons (.leaf opening hopening)
    (.cons args (.cons (.leaf closing hclosing) .nil)))) =>
    exact ⟨name, hname, opening, hopening, args, closing, hclosing, rfl⟩

def ofTerm (term : Derivation (.phrase .term)) : Derivation (.phrase .expression) :=
  let unary := node .unaryTerm (.refl Nonterminal.unaryExpr) (.cons term .nil)
  let mult := node .multUnary (.refl Nonterminal.multExpr) (.cons unary .nil)
  let add := node .addMult (.refl Nonterminal.addExpr) (.cons mult .nil)
  let relation := node .relAdd (.refl Nonterminal.relationExpr) (.cons add .nil)
  let logic := node .logicRel (.refl Nonterminal.logicExpr) (.cons relation .nil)
  node .exprLogic (.refl Nonterminal.expression) (.cons logic .nil)

def printed (opened closed : Position) (call : Derivation (.phrase .funcCall)) :
    Derivation (.phrase .unit) :=
  let term := node .termCall (.refl Nonterminal.term) (.cons call .nil)
  let first : Derivation (.terminal .printOpen) := .leaf ⟨.delimiter .printOpen, opened⟩ rfl
  let last : Derivation (.terminal .blockClose) := .leaf ⟨.delimiter .blockClose, closed⟩ rfl
  let block := node .printBlock (.refl Nonterminal.printBlock)
    (.cons first (.cons (ofTerm term) (.cons last .nil)))
  node .unitPrintBlock (.refl Nonterminal.unit) (.cons block .nil)

theorem printed_yield (opened closed : Position) (call : Derivation (.phrase .funcCall)) :
    (printed opened closed call).yield = ⟨.delimiter .printOpen, opened⟩ :: call.yield ++
      [⟨.delimiter .blockClose, closed⟩] := by
  simp [printed, ofTerm, yield, Derivations.yield]

/-- The call can be read off the block that prints it. -/
theorem printed_injective (opened closed : Position) :
    Function.Injective (printed opened closed) := by
  intro call other h
  dsimp only [printed, ofTerm] at h
  cases h
  rfl

/-- No call is the beginning of another one, and the tokens of a call are derived in one way. -/
theorem call_unique {call other : Derivation (.phrase .funcCall)} {back rest : List Token}
    (h : call.yield ++ back = other.yield ++ rest) : call = other := by
  have hyield : call.yield = other.yield := by
    obtain ⟨name, hname, opening, hopening, args, closing, hclosing, rfl⟩ := call.eq_ofCall
    obtain ⟨name', hname', opening', hopening', args', closing', hclosing', rfl⟩ := other.eq_ofCall
    simp only [ofCall, yield, Derivations.yield, List.append_assoc, List.cons_append,
      List.nil_append, List.append_nil, List.cons.injEq] at h ⊢
    obtain ⟨rfl, rfl, h⟩ := h
    have hargs : args.yield = args'.yield :=
      eq_of_balanced (args.balanced 0) (args'.balanced 0) hclosing hclosing' h
    rw [hargs] at h ⊢
    obtain ⟨rfl, -⟩ := List.cons.inj (List.append_cancel_left h)
    exact ⟨rfl, rfl, rfl⟩
  -- the tokens of a unit are derived in one way, so the calls are put into units
  have hprinted : (printed ⟨0, 0⟩ ⟨0, 0⟩ call).yield ++ [] =
      (printed ⟨0, 0⟩ ⟨0, 0⟩ other).yield ++ [] := by
    rw [printed_yield, printed_yield, hyield]
  exact printed_injective ⟨0, 0⟩ ⟨0, 0⟩ (Piece.unit_unique hprinted).1

end Derivation

namespace Piece

def HaveCall (pieces : List Piece) (call : Derivation (.phrase .funcCall)) : Prop :=
  ∃ tree, unit tree ∈ pieces ∧ call.Within tree

/-- What stands behind pieces is the end, a text or an opening delimiter. -/
theorem nextTerminal_tokens (pieces : List Piece) :
    nextTerminal (pieces.flatMap tokens) ∈
      [Terminal.endOfInput, .text, .blockOpen, .printOpen] := by
  cases pieces with
  | nil => exact List.mem_cons_self
  | cons piece pieces =>
    cases piece with
    | text content pos => exact List.mem_cons_of_mem _ List.mem_cons_self
    | unit d =>
      rw [List.flatMap_cons, tokens, nextTerminal_append d.unit_ne_nil]
      exact List.mem_cons_of_mem _ (List.mem_cons_of_mem _ (d.nextTerminal_mem d.unit_ne_nil))

/-- A name in front of an opening parenthesis begins a call of a unit. -/
theorem call_of_name {pieces : List Piece} {front back : List Token} {name : Token}
    (h : pieces.flatMap tokens = front ++ name :: back)
    (hname : name.terminal? = some .identifier) (hopen : nextTerminal back = .leftParen) :
    ∃ call, HaveCall pieces call ∧ ∃ rest, name :: back = call.yield ++ rest := by
  induction pieces generalizing front with
  | nil => exact absurd h.symm (List.append_ne_nil_of_right_ne_nil _ (List.cons_ne_nil _ _))
  | cons piece pieces ih =>
    rw [List.flatMap_cons] at h
    rcases cut_append h with ⟨middle, hpiece, rfl⟩ | ⟨middle, -, hpieces⟩
    · cases piece with
      | text content pos =>
        rcases List.singleton_eq_append_iff.1 hpiece with ⟨-, htoken⟩ | ⟨-, habsurd⟩
        · obtain ⟨rfl, -⟩ := List.cons.inj htoken
          cases hname
        · cases habsurd
      | unit d =>
        -- what comes behind a unit is no parenthesis
        have hmiddle : middle ≠ [] := by
          rintro rfl
          have hstarts := nextTerminal_tokens pieces
          rw [List.nil_append] at hopen
          rw [hopen] at hstarts
          exact absurd hstarts (by decide)
        have hfirst : nextTerminal (middle ++ []) = .leftParen := by
          rwa [List.append_nil, ← nextTerminal_append hmiddle]
        have hend : (GrammarSymbol.phrase .unit).Follows (nextTerminal []) :=
          List.mem_singleton.2 rfl
        rcases d.call_of_name hpiece hname hfirst hend with
          ⟨habsurd, -⟩ | ⟨call, hcall, rest, hrest⟩
        · cases habsurd
        · refine ⟨call, ⟨d, List.mem_cons_self, hcall⟩, rest ++ pieces.flatMap tokens, ?_⟩
          rw [← List.append_assoc, ← hrest]
          rfl
    · obtain ⟨call, ⟨tree, hmem, hcall⟩, hrest⟩ := ih hpieces
      exact ⟨call, ⟨tree, List.mem_cons_of_mem _ hmem, hcall⟩, hrest⟩

end Piece
end PageTemplate
