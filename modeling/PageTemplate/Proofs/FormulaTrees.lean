import PageTemplate.Proofs.Formula
import PageTemplate.Proofs.Layout
import PageTemplate.Template

namespace PageTemplate

def GrammarSymbol.Derives (symbol : GrammarSymbol) (tokens : List Token) (entry : Entry) : Prop :=
  ∃ d : Derivation symbol, d.yield = tokens ∧ ∀ ahead, d.entry ahead = .ok entry

def GrammarSymbol.DeriveAll (symbols : List GrammarSymbol) (tokens : List Token)
    (entries : List Entry) : Prop :=
  ∃ ds : Derivations symbols, ds.yield = tokens ∧ ∀ ahead, ds.entries ahead = .ok entries

namespace GrammarSymbol

variable {symbol : GrammarSymbol} {symbols : List GrammarSymbol} {front back tokens : List Token}
  {entry : Entry} {entries : List Entry} {node : Node}

theorem deriveAll_nil : DeriveAll [] [] [] := ⟨.nil, rfl, fun _ => rfl⟩

/-- What stands side by side is derived side by side. -/
theorem Derives.cons (h : symbol.Derives front entry) (hrest : DeriveAll symbols back entries) :
    DeriveAll (symbol :: symbols) (front ++ back) (entry :: entries) := by
  obtain ⟨d, rfl, hentry⟩ := h
  obtain ⟨ds, rfl, hentries⟩ := hrest
  refine ⟨.cons d ds, rfl, fun ahead => ?_⟩
  rw [Derivations.entries, hentry]
  simp only [bind, Except.bind, hentries]
  rfl

theorem Derives.single (h : symbol.Derives tokens entry) : DeriveAll [symbol] tokens [entry] := by
  have hall := h.cons deriveAll_nil
  rwa [List.append_nil] at hall

theorem derives_terminal {t : Terminal} {token : Token} {kind : TokenKind}
    (hkind : token.kind = kind) (h : kind.terminal? = some t) :
    (terminal t).Derives [token] (.token token) := by
  subst hkind
  exact ⟨.leaf token h, rfl, fun _ => rfl⟩

/-- A rule derives what its parts derive, with the entry that it builds of their entries. -/
theorem derives_rule (rule : Rule) {plan : Rule.Plan}
    (h : DeriveAll rule.rhs tokens (entry :: entries))
    (hplan : rule.plan (entry :: entries) = .ok plan)
    (hmade : plan.carryOut entry.pos = .ok (.node node)) :
    (phrase rule.lhs).Derives tokens (.node node) := by
  obtain ⟨ds, rfl, hentries⟩ := h
  refine ⟨.node rule rfl ds, rfl, fun ahead => ?_⟩
  rw [Derivation.entry, hentries]
  change rule.build (entry :: entries) ahead = .ok (.node node)
  rw [Rule.build]
  simp only [hplan, hmade]

/-- A rule that passes on its only part. -/
theorem Derives.pass {n : Nonterminal} (h : (phrase n).Derives tokens (.node node)) (rule : Rule)
    (hrhs : rule.rhs = [.phrase n])
    (hplan : rule.plan [.node node] = .ok (.ready (.node node))) :
    (phrase rule.lhs).Derives tokens (.node node) := by
  have hall := h.single
  rw [← hrhs] at hall
  exact derives_rule rule hall hplan rfl

/-- A rule that makes a leaf of its only token. -/
theorem derives_leaf {t : Terminal} {token : Token} (rule : Rule) (hrhs : rule.rhs = [.terminal t])
    (hread : token.terminal? = some t)
    (hplan : rule.plan [.token token] = .ok (.ready (.node node))) :
    (phrase rule.lhs).Derives [token] (.node node) := by
  have hall := (derives_terminal rfl hread).single
  rw [← hrhs] at hall
  exact derives_rule rule hall hplan rfl

end GrammarSymbol

open GrammarSymbol (Derives DeriveAll phrase)

def Nonterminal.ofStrength : Nat → Nonterminal
  | 0 => .logicExpr
  | 1 => .relationExpr
  | 2 => .addExpr
  | 3 => .multExpr
  | _ => .unaryExpr

/-- What binds more strongly can stand where less is asked for. -/
theorem GrammarSymbol.Derives.weaken {tokens : List Token} {node : Node} {level strength : Nat}
    (h : (phrase (.ofStrength strength)).Derives tokens (.node node)) (hlevel : level ≤ strength)
    (hstrength : strength ≤ 4) : (phrase (.ofStrength level)).Derives tokens (.node node) := by
  induction hlevel with
  | refl => exact h
  | @step strength hlevel ih =>
    refine ih ?_ (Nat.le_of_succ_le hstrength)
    match strength, Nat.le_of_succ_le_succ hstrength with
    | 0, _ => exact h.pass .logicRel rfl rfl
    | 1, _ => exact h.pass .relAdd rfl rfl
    | 2, _ => exact h.pass .addMult rfl rfl
    | 3, _ => exact h.pass .multUnary rfl rfl

namespace BinaryOperator

def rule (op : BinaryOperator) : Rule :=
  match op.cls with
  | .logic => .logic
  | .relation => .relation
  | .plus => .plus
  | .minus => .minus
  | _ => .mult

def kind (op : BinaryOperator) : ExprKind :=
  match op.cls with
  | .logic => .logic
  | .relation => .relation
  | .plus | .minus => .add
  | _ => .mult

end BinaryOperator

/-- The trees of a formula, wherever its tokens stand. -/
inductive Formula.Stands : Formula → Node → Prop
  | number (value : Int64) (pos : Position) :
    Stands (.number value) (.leaf (.numberLiteral value) pos)
  | bool (value : Bool) (pos : Position) : Stands (.bool value) (.leaf (.boolLiteral value) pos)
  | string (content : String) (pos : Position) :
    Stands (.string content) (.leaf (.stringLiteral content) pos)
  | name (parts : List String) (pos : Position) :
    Stands (.name parts) (.leaf (.varName parts) pos)
  | unary (op : UnaryOperator) (opPos pos : Position) {operand : Formula} {node : Node} :
    Stands operand node → Stands (.unary op operand)
      ⟨.expression .unary, [.leaf (.operator op.spelling) opPos, node], pos⟩
  | binary (op : BinaryOperator) (opPos pos : Position) {left right : Formula}
    {leftNode rightNode : Node} : Stands left leftNode → Stands right rightNode →
    Stands (.binary op left right)
      ⟨.expression op.kind, [leftNode, .leaf (.operator op.spelling) opPos, rightNode], pos⟩

theorem Formula.Stands.isExpression {formula : Formula} {node : Node} (h : formula.Stands node) :
    node.kind.isExpression = true := by
  cases h <;> rfl

namespace GrammarSymbol.Derives

variable {tokens : List Token} {node : Node} {level : Nat}

theorem ofUnary (h : (phrase .unaryExpr).Derives tokens (.node node)) (hlevel : level ≤ 4) :
    (phrase (.ofStrength level)).Derives tokens (.node node) :=
  have hfour : (phrase (.ofStrength 4)).Derives tokens (.node node) := h
  hfour.weaken hlevel (Nat.le_refl 4)

/-- A term can stand wherever an operand is asked for. -/
theorem ofTerm (h : (phrase .term).Derives tokens (.node node)) (hlevel : level ≤ 4) :
    (phrase (.ofStrength level)).Derives tokens (.node node) :=
  ofUnary (h.pass .unaryTerm rfl rfl) hlevel

/-- Parentheses make a term of any expression and leave its tree as it is. -/
theorem parenthesized {opening closing : Token}
    (h : (phrase .logicExpr).Derives tokens (.node node))
    (hopening : opening.kind = .symbol '(') (hclosing : closing.kind = .symbol ')') :
    (phrase .term).Derives (opening :: (tokens ++ [closing])) (.node node) := by
  have hparts := (derives_terminal hopening rfl).cons
    ((h.pass .exprLogic rfl rfl).cons (derives_terminal hclosing rfl).single)
  exact derives_rule .parenthesized hparts rfl rfl

/-- A print block around an expression is a unit. -/
theorem printed {opening closing : Token} (h : (phrase .logicExpr).Derives tokens (.node node))
    (hopening : opening.kind = .delimiter .printOpen)
    (hclosing : closing.kind = .delimiter .blockClose) (hexpr : node.kind.isExpression = true) :
    (phrase .unit).Derives (opening :: (tokens ++ [closing]))
      (.node ⟨.printBlock, [node], opening.pos⟩) := by
  have hparts := (derives_terminal hopening rfl).cons
    ((h.pass .exprLogic rfl rfl).cons (derives_terminal hclosing rfl).single)
  have hmade : (Rule.Plan.make .printBlock [node]).carryOut opening.pos =
      .ok (.node ⟨.printBlock, [node], opening.pos⟩) := by
    rw [Rule.Plan.carryOut, Rule.checked_ok (Node.shapeFault_printBlock hexpr)]
    rfl
  exact (derives_rule .printBlock hparts rfl hmade).pass .unitPrintBlock rfl rfl

theorem unary {op : Token} {operator : UnaryOperator}
    (h : (phrase .unaryExpr).Derives tokens (.node node)) (hop : op.kind = operator.token)
    (hexpr : node.kind.isExpression = true) :
    (phrase .unaryExpr).Derives (op :: tokens) (.node ⟨.expression .unary,
      [.leaf (.operator operator.spelling) op.pos, node], op.pos⟩) := by
  have hspelling : op.operator? = some (.leaf (.operator operator.spelling) op.pos) := by
    rw [Token.operator?, hop]
    cases operator <;> rfl
  have hmade : (Rule.Plan.make (.expression .unary)
      [.leaf (.operator operator.spelling) op.pos, node]).carryOut op.pos =
      .ok (.node ⟨.expression .unary,
        [.leaf (.operator operator.spelling) op.pos, node], op.pos⟩) := by
    rw [Rule.Plan.carryOut, Rule.checked_ok (Node.shapeFault_unary hexpr _ _)]
    rfl
  cases operator with
  | not =>
    exact derives_rule .not ((derives_terminal hop rfl).cons h.single)
      (Rule.plan_unary rfl hspelling) hmade
  | negate =>
    exact derives_rule .negate ((derives_terminal hop rfl).cons h.single)
      (Rule.plan_unary rfl hspelling) hmade

end GrammarSymbol.Derives

namespace BinaryOperator

/-- The rule of an operator asks for its strength on the left and for more on the right. -/
theorem rule_spec (op : BinaryOperator) :
    ∃ t, op.rule.lhs = .ofStrength op.strength ∧
      op.rule.rhs = [.phrase (.ofStrength op.strength), .terminal t,
        .phrase (.ofStrength (op.strength + 1))] ∧
      op.rule.reading = Rule.binary op.kind ∧ op.token.terminal? = some t := by
  cases op <;> exact ⟨_, rfl, rfl, rfl, rfl⟩

theorem kind_ne (op : BinaryOperator) : op.kind ≠ .assignment ∧ op.kind ≠ .unary := by
  cases op <;> exact ⟨nofun, nofun⟩

theorem strength_lt (op : BinaryOperator) : op.strength < 4 := by
  cases op <;> decide

end BinaryOperator

/-- The right operand has to bind more strongly than the operator, the left one as strongly. -/
theorem GrammarSymbol.Derives.binary {front back : List Token} {op : Token} {left right : Node}
    {operator : BinaryOperator}
    (hleft : (phrase (.ofStrength operator.strength)).Derives front (.node left))
    (hop : op.kind = operator.token)
    (hright : (phrase (.ofStrength (operator.strength + 1))).Derives back (.node right))
    (hexprs : left.kind.isExpression = true ∧ right.kind.isExpression = true) :
    (phrase (.ofStrength operator.strength)).Derives (front ++ op :: back)
      (.node ⟨.expression operator.kind,
        [left, .leaf (.operator operator.spelling) op.pos, right], left.pos⟩) := by
  obtain ⟨t, hlhs, hrhs, hreading, hterminal⟩ := operator.rule_spec
  have hspelling : op.operator? = some (.leaf (.operator operator.spelling) op.pos) := by
    rw [Token.operator?, hop]
    rfl
  have hparts := hleft.cons ((GrammarSymbol.derives_terminal hop hterminal).cons hright.single)
  rw [← hrhs] at hparts
  rw [← hlhs]
  refine derives_rule operator.rule hparts (Rule.plan_binary hreading hspelling) ?_
  rw [Rule.Plan.carryOut,
    Rule.checked_ok (Node.shapeFault_binary operator.kind_ne hexprs.1 hexprs.2 _ _)]
  rfl

/-- Written tokens are derived from the phrase of the strength that is asked for, and the tree is
one of the formula. -/
theorem Formula.Written.derives {level : Nat} {formula : Formula} {kinds : List TokenKind}
    (h : Written level formula kinds) (hlevel : level ≤ 4) {tokens : List Token}
    (htokens : tokens.map Token.kind = kinds) :
    ∃ node, (phrase (.ofStrength level)).Derives tokens (.node node) ∧
      formula.Stands node := by
  -- along the way the formula is written; the places of the tokens stay open
  induction h generalizing tokens with
  | number level value =>
    obtain ⟨⟨_, pos⟩, rfl, rfl⟩ := List.map_eq_singleton_iff.1 htokens
    exact ⟨_, (GrammarSymbol.derives_leaf .numberLiteral rfl rfl rfl).ofTerm hlevel,
      .number value pos⟩
  | bool level value =>
    obtain ⟨⟨_, pos⟩, rfl, rfl⟩ := List.map_eq_singleton_iff.1 htokens
    exact ⟨_, (GrammarSymbol.derives_leaf .boolLiteral rfl rfl rfl).ofTerm hlevel,
      .bool value pos⟩
  | string level content =>
    obtain ⟨⟨_, pos⟩, rfl, rfl⟩ := List.map_eq_singleton_iff.1 htokens
    exact ⟨_, (GrammarSymbol.derives_leaf .stringLiteral rfl rfl rfl).ofTerm hlevel,
      .string content pos⟩
  | identifier level name =>
    obtain ⟨⟨_, pos⟩, rfl, rfl⟩ := List.map_eq_singleton_iff.1 htokens
    have hname : (phrase .varRef).Derives [⟨.identifier name, pos⟩]
        (.node (.leaf (.varName [name]) pos)) := GrammarSymbol.derives_leaf .simpleName rfl rfl rfl
    exact ⟨_, (hname.pass .termVar rfl rfl).ofTerm hlevel, .name [name] pos⟩
  | dottedName level parts =>
    obtain ⟨⟨_, pos⟩, rfl, rfl⟩ := List.map_eq_singleton_iff.1 htokens
    have hname : (phrase .varRef).Derives [⟨.dottedName parts, pos⟩]
        (.node (.leaf (.varName parts) pos)) := GrammarSymbol.derives_leaf .dottedName rfl rfl rfl
    exact ⟨_, (hname.pass .termVar rfl rfl).ofTerm hlevel, .name parts pos⟩
  | unary level op hoperand ih =>
    obtain ⟨token, rest, rfl, htoken, hrest⟩ := List.map_eq_cons_iff.1 htokens
    obtain ⟨node, hderives, hstands⟩ := ih (Nat.le_refl 4) hrest
    exact ⟨_, (GrammarSymbol.Derives.unary hderives htoken hstands.isExpression).ofUnary hlevel,
      .unary op token.pos token.pos hstands⟩
  | binary level op hstrength hleft hright ihleft ihright =>
    obtain ⟨front, others, rfl, hfront, hothers⟩ := List.map_eq_append_iff.1 htokens
    obtain ⟨token, back, rfl, htoken, hback⟩ := List.map_eq_cons_iff.1 hothers
    obtain ⟨left, hleft, hleftStands⟩ := ihleft (Nat.le_of_lt op.strength_lt) hfront
    obtain ⟨right, hright, hrightStands⟩ := ihright op.strength_lt hback
    -- the rule of the operator asks for its own strength, which may be more than is asked for here
    have hderives := hleft.binary htoken hright
      ⟨hleftStands.isExpression, hrightStands.isExpression⟩
    exact ⟨_, hderives.weaken hstrength (Nat.le_of_lt op.strength_lt),
      .binary op token.pos left.pos hleftStands hrightStands⟩
  | parenthesized level h ih =>
    obtain ⟨opening, rest, rfl, hopening, hrest⟩ := List.map_eq_cons_iff.1 htokens
    obtain ⟨inner, last, rfl, hinner, hlast⟩ := List.map_eq_append_iff.1 hrest
    obtain ⟨closing, rfl, hclosing⟩ := List.map_eq_singleton_iff.1 hlast
    obtain ⟨node, hderives, hstands⟩ := ih (Nat.zero_le 4) hinner
    exact ⟨node, (GrammarSymbol.Derives.parenthesized hderives hopening hclosing).ofTerm hlevel,
      hstands⟩

/-- What a formula is written with stands inside a block. -/
theorem Formula.Written.inBlock {level : Nat} {formula : Formula} {kinds : List TokenKind}
    (h : Written level formula kinds) : ∀ kind ∈ kinds, Lexer.InBlock kind := by
  induction h with
  | number | bool | string | identifier | dottedName =>
    exact List.forall_mem_singleton.2 ⟨⟨nofun, nofun⟩, rfl⟩
  | unary level op _ ih =>
    refine List.forall_mem_cons.2 ⟨?_, ih⟩
    cases op <;> exact ⟨⟨nofun, nofun⟩, rfl⟩
  | binary level op _ _ _ ihleft ihright =>
    exact List.forall_mem_append.2 ⟨ihleft, List.forall_mem_cons.2 ⟨⟨⟨nofun, nofun⟩, rfl⟩, ihright⟩⟩
  | parenthesized level _ ih =>
    have hsymbol (c : Char) : Lexer.InBlock (.symbol c) := ⟨⟨nofun, nofun⟩, rfl⟩
    exact List.forall_mem_cons.2 ⟨hsymbol _,
      List.forall_mem_append.2 ⟨ih, List.forall_mem_singleton.2 (hsymbol _)⟩⟩

/-- A source that prints a formula. -/
def Formula.IsSource (formula : Formula) (source : String) : Prop :=
  ∃ kinds, Written 0 formula kinds ∧ PrintsTokens kinds source

/-- Tokens that can be written on one line each can be laid out with a space between them. -/
theorem Spaced.exists_of_onOneLine {kinds : List TokenKind} (hne : kinds ≠ [])
    (h : ∀ kind ∈ kinds, kind.OnOneLine) : ∃ body, Spaced kinds body := by
  induction kinds with
  | nil => exact absurd rfl hne
  | cons kind kinds ih =>
    obtain ⟨⟨cs, hspelled, hline⟩, hkinds⟩ := List.forall_mem_cons.1 h
    cases kinds with
    | nil => exact ⟨_, .last hspelled hline (fun _ => nofun : Text.IsGap [])⟩
    | cons next kinds =>
      obtain ⟨body, hbody⟩ := ih (List.cons_ne_nil _ _) hkinds
      have hgap : Text.IsGap [' '] := List.forall_mem_singleton.2 (by decide)
      exact ⟨_, .cons hspelled hline hgap (List.cons_ne_nil _ _) hbody⟩

/-- All tokens of a formula can be written on one line, so it can be printed. -/
theorem Formula.Writable.exists_source {formula : Formula} (h : formula.Writable) :
    ∃ source, formula.IsSource source := by
  obtain ⟨kinds, hwritten, hne, hkinds⟩ := h.exists_written 0
  obtain ⟨body, hbody⟩ := Spaced.exists_of_onOneLine hne hkinds
  have hgap : Text.IsGap [] := fun _ => nofun
  exact ⟨String.ofList (['{', '{', ':'] ++ ([] ++ (body ++ ['}', '}']))), kinds, hwritten, [], body,
    hgap, hbody, String.toList_ofList⟩

/-- The only tree of a source that prints a formula is a print block of a tree of the formula. -/
theorem Formula.IsSource.read {formula : Formula} {source : String} (h : formula.IsSource source) :
    ∃ node pos, Template.read source = .ok [⟨.printBlock, [node], pos⟩] ∧ formula.Stands node := by
  obtain ⟨kinds, hwritten, hprints⟩ := h
  obtain ⟨tokens, htokenize, hkinds⟩ := hprints.tokenize hwritten.inBlock
  obtain ⟨opening, rest, htokens, hopening, hrest⟩ := List.map_eq_cons_iff.1 hkinds
  obtain ⟨inner, last, rfl, hinner, hlast⟩ := List.map_eq_append_iff.1 hrest
  obtain ⟨closing, rfl, hclosing⟩ := List.map_eq_singleton_iff.1 hlast
  obtain ⟨node, hderives, hstands⟩ := hwritten.derives (Nat.zero_le 4) hinner
  obtain ⟨d, hyield, hentry⟩ := Derives.printed hderives hopening hclosing hstands.isExpression
  have hpieces : withoutLineEnds tokens = [Piece.unit d].flatMap Piece.tokens := by
    rw [htokens, ← hyield, List.flatMap_singleton, Piece.tokens]
  obtain ⟨roots, hparse, hmakes⟩ := trees_of_pieces hpieces
  refine ⟨node, opening.pos, ?_, hstands⟩
  cases hmakes with
  | cons hroot hnone =>
    cases hnone
    have hsame := (hroot opening.pos).symm.trans (hentry opening.pos)
    cases hsame
    rw [Template.read, htokenize]
    simp only [hparse]

end PageTemplate
