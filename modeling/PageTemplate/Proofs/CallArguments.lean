import PageTemplate.Proofs.CallNodes

namespace PageTemplate

mutual

def Derivation.wrapped {symbol : GrammarSymbol} : Derivation symbol → Bool
  | .leaf _ _ => false
  | .node rule _ parts => rule == .parenthesized || (rule.rhs.length == 1 && parts.lastWrapped)

def Derivations.lastWrapped {symbols : List GrammarSymbol} : Derivations symbols → Bool
  | .nil => false
  | .cons last .nil => last.wrapped
  | .cons _ (.cons next rest) => (Derivations.cons next rest).lastWrapped

end

mutual

/-- A call somewhere in a derivation has an argument in parentheses. -/
def Derivation.wrapsArgument {symbol : GrammarSymbol} : Derivation symbol → Bool
  | .leaf _ _ => false
  | .node rule _ parts => (rule.lhs == .argList && parts.lastWrapped) || parts.wrapArgument

def Derivations.wrapArgument {symbols : List GrammarSymbol} : Derivations symbols → Bool
  | .nil => false
  | .cons first rest => first.wrapsArgument || rest.wrapArgument

end

mutual

/-- A part of a derivation without wrapped arguments has none either. -/
theorem Derivation.Within.wrapsArgument {n : Nonterminal} {part : Derivation (.phrase n)}
    {symbol : GrammarSymbol} {whole : Derivation symbol} (h : part.Within whole)
    (hwhole : whole.wrapsArgument = false) : part.wrapsArgument = false := by
  cases h with
  | self => exact hwhole
  | parts hparts => exact hparts.wrapsArgument (Bool.or_eq_false_iff.1 hwhole).2

theorem Derivations.Contains.wrapsArgument {n : Nonterminal} {part : Derivation (.phrase n)}
    {symbols : List GrammarSymbol} {whole : Derivations symbols} (h : whole.Contains part)
    (hwhole : whole.wrapArgument = false) : part.wrapsArgument = false := by
  cases h with
  | first hfirst => exact hfirst.wrapsArgument (Bool.or_eq_false_iff.1 hwhole).1
  | rest hrest => exact hrest.wrapsArgument (Bool.or_eq_false_iff.1 hwhole).2

end

def NodeKind.literal? : NodeKind → Option TokenKind
  | .stringLiteral characters => some (.string characters)
  | .numberLiteral value => some (.number value)
  | .boolLiteral value => some (.bool value)
  | _ => none

def Terminal.symbol? : Terminal → Option Char
  | .leftParen => some '('
  | .rightParen => some ')'
  | .comma => some ','
  | _ => none

theorem Token.kind_of_symbol {token : Token} {t : Terminal} {c : Char}
    (h : token.terminal? = some t) (hc : t.symbol? = some c) : token.kind = .symbol c := by
  unfold Token.terminal? TokenKind.terminal? at h
  split at h <;> cases h <;> cases hc <;> assumption

def GrammarSymbol.isOperand : GrammarSymbol → Bool
  | .phrase .expression | .phrase .logicExpr | .phrase .relationExpr | .phrase .addExpr
  | .phrase .multExpr | .phrase .unaryExpr | .phrase .term => true
  | _ => false

mutual

/-- A literal that does not stand in parentheses is a single token. -/
theorem Derivation.yield_of_literal {symbol : GrammarSymbol} (d : Derivation symbol)
    (hsymbol : symbol.isOperand = true) (hwrapped : d.wrapped = false) {ahead : Position}
    {node : Node} {kind : TokenKind} (h : d.entry ahead = .ok (.node node))
    (hkind : node.kind.literal? = some kind) : d.yield.map Token.kind = [kind] := by
  cases d with
  | leaf token read => cases hsymbol
  | node rule builds parts =>
    subst builds
    obtain ⟨entries, hentries, hfit, hbuild⟩ := Derivation.entry_eq_ok h
    -- where a rule has one part and passes it on, the part is the literal
    have hlone {symbol : GrammarSymbol} (hrhs : rule.rhs = [symbol])
        (hsymbol : symbol.isOperand = true) (hwrapped : parts.lastWrapped = false)
        (hnode : entries = [.node node]) : parts.yield.map Token.kind = [kind] :=
      parts.yield_of_literal hrhs hsymbol hwrapped (hnode ▸ hentries) hkind
    cases rule
    case exprLogic | logicRel | relAdd | addMult | multUnary | unaryTerm =>
      exact hlone rfl rfl hwrapped (Rule.parts_of_pass rfl (by decide) rfl hfit hbuild)
    case stringLiteral | numberLiteral | boolLiteral =>
      match parts, hentries with
      | .cons (.leaf token read) .nil, hentries =>
        cases hentries
        obtain ⟨content, hliteral⟩ := token.holds_of_terminal read
        obtain ⟨_, pos⟩ := token
        obtain rfl := hliteral
        cases hbuild
        cases hkind
        rfl
    case parenthesized => cases hwrapped
    case termVar =>
      rw [Rule.parts_of_pass rfl (by decide) rfl hfit hbuild] at hfit
      obtain ⟨_, _, hparts, ⟨made, rfl, names, hnames⟩, -⟩ := hfit
      cases hparts
      rw [hnames] at hkind
      cases hkind
    case termCall =>
      rw [Rule.parts_of_pass rfl (by decide) rfl hfit hbuild] at hfit
      obtain ⟨_, _, hparts, ⟨made, rfl, hcall⟩, -⟩ := hfit
      cases hparts
      rw [show node.kind = _ from hcall] at hkind
      cases hkind
    -- the other operands are nodes of their own kinds
    case assignment | logic | relation | plus | minus | mult | not | negate =>
      obtain ⟨plan, pos, hplan, -⟩ := Rule.plan_of_build hbuild
      obtain ⟨children, rfl⟩ := ((Rule.plan_fits hfit hplan).made _).2 rfl
      rw [(Rule.eq_of_make hplan hbuild).1] at hkind
      cases hkind
    all_goals cases hsymbol

/-- A literal that no parentheses are around is a single token. -/
theorem Derivations.yield_of_literal {symbols : List GrammarSymbol} (ds : Derivations symbols)
    {symbol : GrammarSymbol} (hsymbols : symbols = [symbol]) (hsymbol : symbol.isOperand = true)
    (hwrapped : ds.lastWrapped = false) {ahead : Position} {node : Node} {kind : TokenKind}
    (h : ds.entries ahead = .ok [.node node]) (hkind : node.kind.literal? = some kind) :
    ds.yield.map Token.kind = [kind] := by
  cases ds with
  | nil => cases hsymbols
  | @cons other _ first rest =>
    have hlone (hsymbol : other.isOperand = true) (hwrapped : first.wrapped = false)
        (h : first.entry ahead = .ok (.node node)) : first.yield.map Token.kind = [kind] :=
      first.yield_of_literal hsymbol hwrapped h hkind
    cases rest with
    | cons next rest => cases hsymbols
    | nil =>
      cases hsymbols
      obtain ⟨made, others, hmade, hfirst, -⟩ := Derivations.entries_cons_eq_ok h
      cases hmade
      rw [Derivations.yield, Derivations.yield, List.append_nil]
      exact hlone hsymbol hwrapped hfirst

end

theorem intersperse_concat {α : Type} (separator a : α) {init : List α} (h : init ≠ []) :
    (init ++ [a]).intersperse separator = init.intersperse separator ++ [separator, a] := by
  induction init with
  | nil => exact absurd rfl h
  | cons first rest ih =>
    cases rest with
    | nil => rfl
    | cons next rest =>
      rw [List.cons_append, List.cons_append, List.intersperse_cons_cons,
        List.intersperse_cons_cons, ← List.cons_append, ih (List.cons_ne_nil _ _)]
      rfl

namespace Derivation

def ofFirst (arg : Derivation (.phrase .expression)) : Derivation (.phrase .argList) :=
  .node .argFirst rfl (.cons arg .nil)

def ofAppend (list : Derivation (.phrase .argList)) (comma : Token)
    (hcomma : comma.terminal? = some .comma) (arg : Derivation (.phrase .expression)) :
    Derivation (.phrase .argList) :=
  .node .argAppend rfl (.cons list (.cons (.leaf comma hcomma) (.cons arg .nil)))

/-- Argument lists grow at their end. -/
theorem argList_induction {motive : Derivation (.phrase .argList) → Prop}
    (first : ∀ arg, motive (ofFirst arg))
    (append : ∀ list comma hcomma arg, motive list → motive (ofAppend list comma hcomma arg))
    (list : Derivation (.phrase .argList)) : motive list := by
  induction hlength : list.yield.length using Nat.strongRecOn generalizing list with
  | _ length ih =>
    match list with
    | .node .argFirst rfl (.cons arg .nil) => exact first arg
    | .node .argAppend rfl (.cons list (.cons (.leaf comma hcomma) (.cons arg .nil))) =>
      refine append list comma hcomma arg (ih list.yield.length ?_ list rfl)
      have hyield : length = (list.yield ++ comma :: (arg.yield ++ [])).length := hlength.symm
      rw [hyield, List.length_append, List.length_cons]
      omega

/-- Literals in an argument list, none of them in parentheses, are tokens with commas in between. -/
theorem yield_of_literals (list : Derivation (.phrase .argList)) {ahead : Position} {node : Node}
    {kinds : List TokenKind} (hwraps : list.wrapsArgument = false)
    (h : list.entry ahead = .ok (.node node))
    (hkinds : node.children.map (fun child => child.kind.literal?) = kinds.map some) :
    list.yield.map Token.kind = kinds.intersperse (.symbol ',') := by
  induction list using argList_induction generalizing ahead node kinds with
  | first arg =>
    obtain ⟨entries, hentries, ⟨_, _, rfl, ⟨made, rfl, -⟩, rfl⟩, hbuild⟩ := entry_eq_ok h
    obtain ⟨_, _, heq, harg, -⟩ := Derivations.entries_cons_eq_ok hentries
    cases heq
    rw [(Rule.eq_of_make rfl hbuild).2, List.map_singleton] at hkinds
    obtain ⟨kind, rfl, hkind⟩ := List.map_eq_singleton_iff.1 hkinds.symm
    have hwrapped : arg.wrapped = false := (Bool.or_eq_false_iff.1 hwraps).1
    have hyield : (ofFirst arg).yield = arg.yield := List.append_nil _
    rw [hyield, List.intersperse_singleton]
    exact arg.yield_of_literal rfl hwrapped harg hkind.symm
  | append list comma hcomma arg ih =>
    obtain ⟨entries, hentries, ⟨_, _, rfl, ⟨others, rfl, hlist⟩, _, _, rfl, ⟨_, rfl, _⟩, _, _, rfl,
      ⟨made, rfl, -⟩, rfl⟩, hbuild⟩ := entry_eq_ok h
    obtain ⟨_, _, heq, hothers, hentries⟩ := Derivations.entries_cons_eq_ok hentries
    cases heq
    obtain ⟨_, _, heq, -, hentries⟩ := Derivations.entries_cons_eq_ok hentries
    cases heq
    obtain ⟨_, _, heq, harg, -⟩ := Derivations.entries_cons_eq_ok hentries
    cases heq
    have hchildren : node.children = others.children ++ [made] :=
      Rule.children_of_push rfl hbuild
    rw [hchildren, List.map_append] at hkinds
    obtain ⟨init, last, rfl, hinit, hlast⟩ := List.map_eq_append_iff.1 hkinds.symm
    obtain ⟨kind, rfl, hkind⟩ := List.map_eq_singleton_iff.1 hlast
    obtain ⟨hwrapped, hparts⟩ := Bool.or_eq_false_iff.1 hwraps
    have hfront := ih (Bool.or_eq_false_iff.1 hparts).1 hothers hinit.symm
    have hback := arg.yield_of_literal rfl hwrapped harg hkind.symm
    -- a list in front of a comma has an argument, so the comma stands between two
    have hne : init ≠ [] := by
      rintro rfl
      exact absurd (list.nullable_of_yield (List.map_eq_nil_iff.1 hfront)) (by decide)
    have hcommaKind := comma.kind_of_symbol hcomma rfl
    have hyield : (ofAppend list comma hcomma arg).yield = list.yield ++ comma :: arg.yield := by
      simp [ofAppend, yield, Derivations.yield]
    rw [hyield, List.map_append, List.map_cons, hfront, hback, hcommaKind,
      intersperse_concat _ _ hne]

/-- Literal arguments without parentheses are their tokens with commas between. -/
theorem yield_of_literal_args (args : Derivation (.phrase .args)) {ahead : Position} {node : Node}
    {kinds : List TokenKind} (hwraps : args.wrapsArgument = false)
    (h : args.entry ahead = .ok (.node node))
    (hkinds : node.children.map (fun child => child.kind.literal?) = kinds.map some) :
    args.yield.map Token.kind = kinds.intersperse (.symbol ',') := by
  match args with
  | .node .argsNone rfl .nil =>
    obtain ⟨entries, -, rfl, hbuild⟩ := entry_eq_ok h
    rw [(Rule.eq_of_make rfl hbuild).2] at hkinds
    cases List.map_eq_nil_iff.1 hkinds.symm
    rfl
  | .node .argsSome rfl (.cons list .nil) =>
    obtain ⟨entries, hentries, hfit, hbuild⟩ := entry_eq_ok h
    rw [Rule.parts_of_pass rfl (by decide) rfl hfit hbuild] at hentries
    obtain ⟨_, _, heq, hlist, -⟩ := Derivations.entries_cons_eq_ok hentries
    cases heq
    have hlistWraps : list.wrapsArgument = false := (Bool.or_eq_false_iff.1 hwraps).1
    have hyield : (Derivation.node .argsSome rfl (.cons list .nil)).yield = list.yield :=
      List.append_nil _
    have hliterals := list.yield_of_literals hlistWraps hlist hkinds
    exact (congrArg (List.map Token.kind) hyield).trans hliterals

/-- The node of a call has the name and the list of arguments for children. -/
theorem children_of_call {name opening closing : Token} {hname : name.terminal? = some .identifier}
    {hopening : opening.terminal? = some .leftParen} {args : Derivation (.phrase .args)}
    {hclosing : closing.terminal? = some .rightParen} {call : Node}
    (h : call.MadeBy (ofCall name hname opening hopening args closing hclosing)) :
    ∃ callee list, name.kind = .identifier callee ∧ args.entry closing.pos = .ok (.node list) ∧
      call.kind = .funcCall ∧
      call.children = [.leaf (.identifier callee) name.pos, list] := by
  obtain ⟨entries, hentries, ⟨_, _, rfl, ⟨_, rfl, _⟩, _, _, rfl, ⟨_, rfl, _⟩, _, _, rfl,
    ⟨list, rfl, -⟩, _, _, rfl, ⟨_, rfl, _⟩, rfl⟩, hbuild⟩ := entry_eq_ok (h ⟨0, 0⟩)
  obtain ⟨_, _, heq, hentry, hbehind⟩ := Derivations.entries_cons_eq_ok hentries
  cases heq
  cases hentry
  obtain ⟨_, _, heq, -, hinside⟩ := Derivations.entries_cons_eq_ok hbehind
  cases heq
  obtain ⟨_, _, heq, hargs, -⟩ := Derivations.entries_cons_eq_ok hinside
  cases heq
  obtain ⟨callee, hcallee⟩ := name.holds_of_terminal hname
  obtain ⟨_, pos⟩ := name
  obtain rfl := hcallee
  obtain ⟨hkind, hchildren⟩ := Rule.eq_of_make rfl hbuild
  exact ⟨callee, list, rfl, hargs, hkind, hchildren⟩

end Derivation
end PageTemplate
