import Mathlib
import PageTemplate.Proofs.Lookahead
import PageTemplate.Proofs.Shapes

namespace PageTemplate

namespace Node

/-- Children that all play one part fit a list of that part. -/
theorem misfit_replicate {index count : Nat} {role : Role} {children : List Node}
    (h : ∀ child ∈ children, role.admits child.kind = true) :
    misfit? index (List.replicate count role) children = none := by
  apply misfit_eq_none.2
  intro pair hpair
  obtain ⟨hrole, hchild⟩ := List.of_mem_zip hpair
  rw [List.eq_of_mem_replicate hrole]
  exact h pair.2 hchild

theorem shapeFault_statementList {children : List Node} (hne : children ≠ [])
    (h : ∀ child ∈ children, child.kind.isExpression = true) :
    shapeFault? .statementList children = none := by
  have hlen : children.length ≠ 0 := fun h0 => hne (List.length_eq_zero_iff.1 h0)
  simp only [shapeFault?, NodeKind.roles, if_neg hlen]
  exact misfit_replicate h

/-- Bodies and argument lists may have any children. -/
theorem shapeFault_list {kind : NodeKind} (hkind : kind = .content ∨ kind = .argsList)
    (children : List Node) : shapeFault? kind children = none := by
  rcases hkind with rfl | rfl
  · exact misfit_replicate fun _ _ => rfl
  · exact misfit_replicate fun _ _ => rfl

theorem shapeFault_unary {operand : Node} (h : operand.kind.isExpression = true)
    (spelling : String) (pos : Position) :
    shapeFault? (.expression .unary) [.leaf (.operator spelling) pos, operand] = none :=
  misfit_eq_none.2 (by simp [Role.admits, h, leaf])

theorem shapeFault_binary {kind : ExprKind} (hkind : kind ≠ .assignment ∧ kind ≠ .unary)
    {left right : Node} (hleft : left.kind.isExpression = true)
    (hright : right.kind.isExpression = true) (spelling : String) (pos : Position) :
    shapeFault? (.expression kind) [left, .leaf (.operator spelling) pos, right] = none := by
  have hroles : NodeKind.roles (.expression kind) 3 =
      .ok [.expression, .operator, .expression] := by
    cases kind <;> first | rfl | exact absurd rfl hkind.1 | exact absurd rfl hkind.2
  simp only [shapeFault?, List.length_cons, List.length_nil, Nat.zero_add, Nat.reduceAdd, hroles]
  exact misfit_eq_none.2 (by simp [Role.admits, hleft, hright, leaf])

theorem shapeFault_printBlock {expr : Node} (h : expr.kind.isExpression = true) :
    shapeFault? .printBlock [expr] = none :=
  misfit_eq_none.2 (by simp [Role.admits, h])

theorem shapeFault_elseIfList_nil : shapeFault? .elseIfList [] = none := by
  simp [shapeFault?, NodeKind.roles, misfit?]

/-- A condition and a body go in front of the branches of an if statement. -/
theorem shapeFault_elseIfList {condition body : Node} {branches : List Node}
    (hcondition : condition.kind.isExpression = true) (hbody : body.kind = .content)
    (h : shapeFault? .elseIfList branches = none) :
    shapeFault? .elseIfList (condition :: body :: branches) = none := by
  have hfirst : Role.expression.admits condition.kind = true := hcondition
  have hsecond : Role.content.admits body.kind = true := by rw [hbody]; rfl
  simp only [shapeFault?, NodeKind.roles] at h ⊢
  by_cases heven : branches.length % 2 = 0
  · have hhalf : (branches.length + 1 + 1) / 2 = branches.length / 2 + 1 := by omega
    have heven' : (branches.length + 1 + 1) % 2 = 0 := by omega
    rw [if_pos heven] at h
    rw [List.length_cons, List.length_cons, if_pos heven', hhalf, List.replicate_succ,
      List.flatten_cons, List.cons_append, List.cons_append, List.nil_append]
    simp only [misfit?, if_pos hfirst, if_pos hsecond]
    exact misfit_eq_none.2 (misfit_eq_none.1 h)
  · rw [if_neg heven] at h
    cases h

end Node

def Nonterminal.Fits : Nonterminal → Node → Prop
  | .statementList, node =>
    node.kind = .statementList ∧ node.children ≠ [] ∧
      ∀ child ∈ node.children, child.kind.isExpression = true
  | .expression, node | .logicExpr, node | .relationExpr, node | .addExpr, node | .multExpr, node
  | .unaryExpr, node | .term, node => node.kind.isExpression = true
  | .varRef, node => ∃ parts, node.kind = .varName parts
  | .funcCall, node => node.kind = .funcCall
  | .args, node | .argList, node => node.kind = .argsList
  | .loopInput, node => Role.loopInput.admits node.kind = true
  | .content, node => node.kind = .content
  | _, _ => True

structure IfTail.Fits (tail : IfTail) : Prop where
  elseIfs : Node.shapeFault? .elseIfList tail.elseIfs = none
  elseClause : ∀ clause ∈ tail.elseClause, clause.kind = .elseClause
  endWord : tail.endWord.kind = .identifier "end"

namespace Entry

def Fits (entry : Entry) : GrammarSymbol → Prop
  | .terminal t => ∃ token, entry = .token token ∧ token.terminal? = some t
  | .phrase .ifRest => ∃ tail, entry = .tail tail ∧ tail.Fits
  | .phrase n => ∃ node, entry = .node node ∧ n.Fits node

def FitAll : List GrammarSymbol → List Entry → Prop
  | [], entries => entries = []
  | symbol :: symbols, entries =>
    ∃ entry rest, entries = entry :: rest ∧ entry.Fits symbol ∧ FitAll symbols rest

end Entry

def Terminal.Holds : Terminal → TokenKind → Prop
  | .identifier, kind => ∃ name, kind = .identifier name
  | .dottedName, kind => ∃ parts, kind = .dottedName parts
  | .string, kind => ∃ content, kind = .string content
  | .number, kind => ∃ value, kind = .number value
  | .bool, kind => ∃ value, kind = .bool value
  | .text, kind => ∃ content, kind = .text content
  | .ifWord, kind => kind = .keyword .ifWord
  | .elseWord, kind => kind = .keyword .elseWord
  | .endWord, kind => kind = .keyword .endWord
  | .assign, kind | .logicOp, kind | .relationOp, kind | .plus, kind | .minus, kind
  | .multOp, kind | .bang, kind => ∃ cls spelling, kind = .operator cls spelling
  | _, _ => True

theorem Token.holds_of_terminal {token : Token} {t : Terminal} (h : token.terminal? = some t) :
    t.Holds token.kind := by
  unfold Token.terminal? TokenKind.terminal? at h
  split at h <;> cases h <;> simp_all [Terminal.Holds]

/-- Each class of operators has a leaf for its tokens. -/
theorem Token.operator_of_terminal {token : Token} {t : Terminal}
    (ht : t ∈ [Terminal.logicOp, .relationOp, .plus, .minus, .multOp, .bang])
    (h : token.terminal? = some t) :
    ∃ spelling, token.operator? = some (.leaf (.operator spelling) token.pos) := by
  have hkind : ∃ cls spelling, token.kind = .operator cls spelling := by
    have hholds := token.holds_of_terminal h
    simp only [List.mem_cons, List.not_mem_nil, or_false] at ht
    rcases ht with rfl | rfl | rfl | rfl | rfl | rfl <;> exact hholds
  obtain ⟨cls, spelling, hkind⟩ := hkind
  exact ⟨spelling, by rw [Token.operator?, hkind]⟩

theorem Token.eq_identifier {token : Token} (h : token.terminal? = some .identifier) :
    ∃ name pos, token = ⟨.identifier name, pos⟩ := by
  obtain ⟨name, hkind⟩ := token.holds_of_terminal h
  exact ⟨name, token.pos, hkind ▸ rfl⟩

theorem Token.eq_keyword {token : Token} {word : Keyword} (h : token.kind = .keyword word) :
    ∃ pos, token = ⟨.keyword word, pos⟩ :=
  ⟨token.pos, h ▸ rfl⟩

/-- All phrases but one are built into nodes. -/
theorem Entry.fits_phrase {entry : Entry} {n : Nonterminal} (hn : n ≠ .ifRest) :
    entry.Fits (.phrase n) ↔ ∃ node, entry = .node node ∧ n.Fits node := by
  cases n <;> first | exact Iff.rfl | exact absurd rfl hn

theorem Reading.leaf_token {leaf? : Token → Option Node} {token : Token} {node : Node}
    {rest : List Entry} (h : leaf? token = some node) :
    leaf leaf? (.token token :: rest) = .ok (node, rest) := by
  have htoken : Reading.token (.token token :: rest) = .ok (token, rest) := rfl
  simp [leaf, bind, StateT.bind, htoken, Except.bind, h, pure, StateT.pure, Except.pure]

theorem Reading.bind_eq {α β : Type} {reading : Reading α} {further : α → Reading β} {a : α}
    {parts rest : List Entry} (h : reading parts = .ok (a, rest)) :
    (reading >>= further) parts = further a rest := by
  simp [bind, StateT.bind, h, Except.bind]

namespace Rule

/-- A rule that passes something on has it ready. -/
theorem plan_pass {rule : Rule} {reading : Reading Node} {parts rest : List Entry} {node : Node}
    (hreading : rule.reading = pass reading) (h : reading parts = .ok (node, rest)) :
    rule.plan parts = .ok (.ready (.node node)) := by
  rw [plan, hreading, pass, Reading.bind_eq h]
  rfl

/-- A binary operation puts its operator between the operands. -/
theorem plan_binary {rule : Rule} {kind : ExprKind} {op : Token} {left operator right : Node}
    (hreading : rule.reading = binary kind) (hop : op.operator? = some operator) :
    rule.plan [.node left, .token op, .node right] =
      .ok (.make (.expression kind) [left, operator, right]) := by
  have hleft : Reading.node [.node left, .token op, .node right] =
      .ok (left, [.token op, .node right]) := rfl
  have hmiddle : Reading.operator [.token op, .node right] = .ok (operator, [.node right]) :=
    Reading.leaf_token hop
  rw [plan, hreading, binary, Reading.bind_eq hleft, Reading.bind_eq hmiddle]
  rfl

theorem plan_unary {rule : Rule} {op : Token} {operator operand : Node}
    (hreading : rule.reading = unary) (hop : op.operator? = some operator) :
    rule.plan [.token op, .node operand] =
      .ok (.make (.expression .unary) [operator, operand]) := by
  have hfirst : Reading.operator [.token op, .node operand] = .ok (operator, [.node operand]) :=
    Reading.leaf_token hop
  rw [plan, hreading, unary, Reading.bind_eq hfirst]
  rfl

theorem checked_ok {kind : NodeKind} {children : List Node} {pos : Position}
    (h : Node.shapeFault? kind children = none) :
    checked kind children pos = .ok ⟨kind, children, pos⟩ := by
  simp only [checked, Node.make, h]

/-- What a plan makes at any place has a property. -/
def Plan.Makes (plan : Plan) (property : Entry → Prop) : Prop :=
  ∀ pos, ∃ entry, plan.carryOut pos = .ok entry ∧ property entry

theorem Plan.makes_ready {entry : Entry} {property : Entry → Prop} (h : property entry) :
    (Plan.ready entry).Makes property :=
  fun _ => ⟨entry, rfl, h⟩

theorem Plan.makes_make {kind : NodeKind} {children : List Node} {property : Entry → Prop}
    (hshape : Node.shapeFault? kind children = none)
    (h : ∀ pos, property (.node ⟨kind, children, pos⟩)) :
    (Plan.make kind children).Makes property := by
  intro pos
  refine ⟨.node ⟨kind, children, pos⟩, ?_, h pos⟩
  rw [carryOut, checked_ok hshape]
  rfl

/-- Adding to a list keeps its kind and its position. -/
theorem Plan.makes_push {list child : Node} {property : Entry → Prop}
    (hlist : Node.isList list.kind = true)
    (hshape : Node.shapeFault? list.kind (list.children ++ [child]) = none)
    (h : property (.node ⟨list.kind, list.children ++ [child], list.pos⟩)) :
    (Plan.push list child).Makes property := by
  intro pos
  refine ⟨_, ?_, h⟩
  rw [carryOut, Node.push, if_pos hlist, Node.make, hshape]

/-- A rule makes a fitting entry of fitting parts, wherever it is applied. -/
def Succeeds (rule : Rule) : Prop :=
  ∀ parts, Entry.FitAll rule.rhs parts →
    ∃ plan, rule.plan parts = .ok plan ∧ plan.Makes fun entry => entry.Fits (.phrase rule.lhs)

/-- A rule that passes on its only part. -/
theorem succeeds_only {rule : Rule} {n : Nonterminal} (hrhs : rule.rhs = [.phrase n])
    (hreading : rule.reading = pass .node) (hn : n ≠ .ifRest) (hlhs : rule.lhs ≠ .ifRest)
    (hfits : ∀ node, n.Fits node → rule.lhs.Fits node) : rule.Succeeds := by
  intro parts h
  rw [hrhs] at h
  obtain ⟨entry, _, rfl, hentry, rfl⟩ := h
  obtain ⟨node, rfl, hnode⟩ := (Entry.fits_phrase hn).1 hentry
  refine ⟨.ready (.node node), by rw [plan, hreading]; rfl, Plan.makes_ready ?_⟩
  exact (Entry.fits_phrase hlhs).2 ⟨node, rfl, hfits node hnode⟩

/-- A rule that makes a leaf of a token of one kind. -/
theorem succeeds_constant {rule : Rule} {t : Terminal} {kind? : TokenKind → Option NodeKind}
    (hrhs : rule.rhs = [.terminal t]) (hreading : rule.reading = pass (.constant kind?))
    (hlhs : rule.lhs ≠ .ifRest)
    (hleaf : ∀ kind, t.Holds kind →
      ∃ made, kind? kind = some made ∧ ∀ pos, rule.lhs.Fits (.leaf made pos)) : rule.Succeeds := by
  intro parts h
  rw [hrhs] at h
  obtain ⟨_, _, rfl, ⟨token, rfl, htoken⟩, rfl⟩ := h
  obtain ⟨made, hmade, hfits⟩ := hleaf token.kind (token.holds_of_terminal htoken)
  refine ⟨.ready (.node (.leaf made token.pos)), ?_, Plan.makes_ready ?_⟩
  · exact plan_pass hreading (Reading.leaf_token (by rw [hmade]; rfl))
  · exact (Entry.fits_phrase hlhs).2 ⟨_, rfl, hfits token.pos⟩

/-- A rule for an operator between two operands. -/
theorem succeeds_binary {rule : Rule} {left right : Nonterminal} {t : Terminal} {kind : ExprKind}
    (hrhs : rule.rhs = [.phrase left, .terminal t, .phrase right])
    (hreading : rule.reading = binary kind) (hlhs : rule.lhs ≠ .ifRest)
    (ht : t ∈ [Terminal.logicOp, .relationOp, .plus, .minus, .multOp, .bang])
    (hkind : kind ≠ .assignment ∧ kind ≠ .unary)
    (hoperands : ∀ n ∈ [left, right], n ≠ .ifRest ∧
      ∀ node, n.Fits node → node.kind.isExpression = true)
    (hfits : ∀ node : Node, node.kind = .expression kind → rule.lhs.Fits node) :
    rule.Succeeds := by
  intro parts h
  rw [hrhs] at h
  obtain ⟨_, _, rfl, hleft, _, _, rfl, ⟨op, rfl, hop⟩, _, _, rfl, hright, rfl⟩ := h
  obtain ⟨hl, hlexpr⟩ := hoperands left (by simp)
  obtain ⟨hr, hrexpr⟩ := hoperands right (by simp)
  obtain ⟨lnode, rfl, hlnode⟩ := (Entry.fits_phrase hl).1 hleft
  obtain ⟨rnode, rfl, hrnode⟩ := (Entry.fits_phrase hr).1 hright
  obtain ⟨spelling, hspelling⟩ := Token.operator_of_terminal ht hop
  refine ⟨_, plan_binary hreading hspelling, Plan.makes_make ?_ fun pos => ?_⟩
  · exact Node.shapeFault_binary hkind (hlexpr lnode hlnode) (hrexpr rnode hrnode) spelling op.pos
  · exact (Entry.fits_phrase hlhs).2 ⟨_, rfl, hfits _ rfl⟩

/-- A rule for an operator in front of its operand. -/
theorem succeeds_unary {rule : Rule} {t : Terminal} (hrule : rule = .not ∧ t = .bang ∨
    rule = .negate ∧ t = .minus) : rule.Succeeds := by
  intro parts h
  have hrhs : rule.rhs = [.terminal t, .phrase .unaryExpr] := by
    rcases hrule with ⟨rfl, rfl⟩ | ⟨rfl, rfl⟩ <;> rfl
  have hreading : rule.reading = unary := by
    rcases hrule with ⟨rfl, rfl⟩ | ⟨rfl, rfl⟩ <;> rfl
  have ht : t ∈ [Terminal.logicOp, .relationOp, .plus, .minus, .multOp, .bang] := by
    rcases hrule with ⟨_, rfl⟩ | ⟨_, rfl⟩ <;> decide
  have hlhs : rule.lhs = .unaryExpr := by
    rcases hrule with ⟨rfl, _⟩ | ⟨rfl, _⟩ <;> rfl
  rw [hrhs] at h
  obtain ⟨_, _, rfl, ⟨op, rfl, hop⟩, _, _, rfl, ⟨operand, rfl, hoperand⟩, rfl⟩ := h
  obtain ⟨spelling, hspelling⟩ := Token.operator_of_terminal ht hop
  have hexpr : operand.kind.isExpression = true := hoperand
  refine ⟨_, plan_unary hreading hspelling, Plan.makes_make ?_ fun pos => ?_⟩
  · exact Node.shapeFault_unary hexpr spelling op.pos
  · rw [hlhs]
    exact ⟨_, rfl, rfl⟩

/-- A list that begins with its first element, and a list that gains one. -/
theorem succeeds_statementFirst : statementFirst.Succeeds := by
  intro parts h
  rcases h with ⟨_, _, rfl, ⟨statement, rfl, hstatement⟩, rfl⟩
  have hall : ∀ child ∈ [statement], child.kind.isExpression = true :=
    List.forall_mem_singleton.2 hstatement
  refine ⟨_, rfl, Plan.makes_make ?_ fun pos => ⟨_, rfl, rfl, List.cons_ne_nil _ _, hall⟩⟩
  exact Node.shapeFault_statementList (List.cons_ne_nil _ _) hall

theorem succeeds_statementAppend : statementAppend.Succeeds := by
  intro parts h
  rcases h with ⟨_, _, rfl, ⟨list, rfl, hkind, _, hchildren⟩, _, _, rfl, ⟨_, rfl, _⟩, _, _, rfl,
    ⟨statement, rfl, hstatement⟩, rfl⟩
  have hne : list.children ++ [statement] ≠ [] := List.append_ne_nil_of_right_ne_nil _ (by simp)
  have hall : ∀ child ∈ list.children ++ [statement], child.kind.isExpression = true :=
    List.forall_mem_append.2 ⟨hchildren, List.forall_mem_singleton.2 hstatement⟩
  refine ⟨_, rfl, Plan.makes_push ?_ ?_ ⟨_, rfl, hkind, hne, hall⟩⟩
  · rw [hkind]
    rfl
  · rw [hkind]
    exact Node.shapeFault_statementList hne hall

theorem succeeds_statementTrailing : statementTrailing.Succeeds := by
  intro parts h
  rcases h with ⟨_, _, rfl, ⟨list, rfl, hlist⟩, _, _, rfl, ⟨_, rfl, _⟩, rfl⟩
  exact ⟨_, rfl, Plan.makes_ready ⟨list, rfl, hlist⟩⟩

theorem succeeds_argFirst : argFirst.Succeeds := by
  intro parts h
  rcases h with ⟨_, _, rfl, ⟨arg, rfl, _⟩, rfl⟩
  exact ⟨_, rfl, Plan.makes_make (Node.shapeFault_list (.inr rfl) _) fun pos => ⟨_, rfl, rfl⟩⟩

theorem succeeds_argAppend : argAppend.Succeeds := by
  intro parts h
  rcases h with ⟨_, _, rfl, ⟨list, rfl, hlist⟩, _, _, rfl, ⟨_, rfl, _⟩, _, _, rfl, ⟨arg, rfl, _⟩,
    rfl⟩
  have hkind : list.kind = .argsList := hlist
  refine ⟨_, rfl, Plan.makes_push ?_ (Node.shapeFault_list (.inr hkind) _) ⟨_, rfl, hkind⟩⟩
  rw [hkind]
  rfl

theorem succeeds_contentAppend : contentAppend.Succeeds := by
  intro parts h
  rcases h with ⟨_, _, rfl, ⟨list, rfl, hlist⟩, _, _, rfl, ⟨item, rfl, _⟩, rfl⟩
  have hkind : list.kind = .content := hlist
  refine ⟨_, rfl, Plan.makes_push ?_ (Node.shapeFault_list (.inl hkind) _) ⟨_, rfl, hkind⟩⟩
  rw [hkind]
  rfl

theorem succeeds_block : block.Succeeds := by
  intro parts h
  rcases h with ⟨_, _, rfl, ⟨_, rfl, _⟩, _, _, rfl, ⟨list, rfl, hkind, _, _⟩, _, _, rfl,
    ⟨_, rfl, _⟩, rfl⟩
  refine ⟨_, rfl, Plan.makes_make ?_ fun pos => ⟨_, rfl, trivial⟩⟩
  exact Node.misfit_eq_none.2 (by simp [Role.admits, hkind])

theorem succeeds_printBlock : printBlock.Succeeds := by
  intro parts h
  rcases h with ⟨_, _, rfl, ⟨_, rfl, _⟩, _, _, rfl, ⟨expr, rfl, hexpr⟩, _, _, rfl, ⟨_, rfl, _⟩, rfl⟩
  exact ⟨_, rfl, Plan.makes_make (Node.shapeFault_printBlock hexpr) fun pos => ⟨_, rfl, trivial⟩⟩

theorem succeeds_assignment : assignment.Succeeds := by
  intro parts h
  rcases h with ⟨_, _, rfl, ⟨target, rfl, names, htarget⟩, _, _, rfl, ⟨_, rfl, _⟩, _, _, rfl,
    ⟨value, rfl, hvalue⟩, rfl⟩
  have hkind : value.kind.isExpression = true := hvalue
  refine ⟨_, rfl, Plan.makes_make ?_ fun pos => ⟨_, rfl, rfl⟩⟩
  exact Node.misfit_eq_none.2 (by simp [hkind, Role.admits, htarget])

theorem succeeds_parenthesized : parenthesized.Succeeds := by
  intro parts h
  rcases h with ⟨_, _, rfl, ⟨_, rfl, _⟩, _, _, rfl, ⟨expr, rfl, hexpr⟩, _, _, rfl, ⟨_, rfl, _⟩, rfl⟩
  exact ⟨_, rfl, Plan.makes_ready ⟨expr, rfl, hexpr⟩⟩

/-- A call takes its name and its arguments from between the parentheses. -/
theorem succeeds_funcCall : funcCall.Succeeds := by
  intro parts h
  rcases h with ⟨_, _, rfl, ⟨name, rfl, hname⟩, _, _, rfl, ⟨_, rfl, _⟩, _, _, rfl,
    ⟨args, rfl, hargs⟩, _, _, rfl, ⟨_, rfl, _⟩, rfl⟩
  obtain ⟨callee, namePos, rfl⟩ := Token.eq_identifier hname
  have hkind : args.kind = .argsList := hargs
  refine ⟨_, rfl, Plan.makes_make ?_ fun pos => ⟨_, rfl, rfl⟩⟩
  exact Node.misfit_eq_none.2 (by simp [Role.admits, hkind, Node.leaf])

theorem succeeds_ifStatement : ifStatement.Succeeds := by
  intro parts h
  rcases h with ⟨_, _, rfl, ⟨_, rfl, _⟩, _, _, rfl, ⟨word, rfl, hword⟩, _, _, rfl,
    ⟨condition, rfl, hcondition⟩, _, _, rfl, ⟨_, rfl, _⟩, _, _, rfl, ⟨body, rfl, hbody⟩, _, _, rfl,
    ⟨tail, rfl, htail⟩, rfl⟩
  obtain ⟨wordPos, rfl⟩ := Token.eq_keyword (word.holds_of_terminal hword)
  have hexpr : condition.kind.isExpression = true := hcondition
  have hcontent : body.kind = .content := hbody
  refine ⟨_, rfl, fun pos => ?_⟩
  let elseIfs : Node := ⟨.elseIfList, tail.elseIfs, pos⟩
  let children := [.leaf (.identifier "if") wordPos, condition, body, elseIfs] ++
    tail.elseClause.toList ++ [tail.endWord]
  have hshape : Node.shapeFault? .ifStatement children = none := by
    cases hclause : tail.elseClause with
    | none =>
      simp only [children, hclause, Node.shapeFault?]
      exact Node.misfit_eq_none.2
        (by simp [Role.admits, hexpr, hcontent, htail.endWord, Node.leaf, elseIfs])
    | some clause =>
      have hkind := htail.elseClause clause hclause
      simp only [children, hclause, Node.shapeFault?]
      exact Node.misfit_eq_none.2
        (by simp [Role.admits, hexpr, hcontent, htail.endWord, hkind, Node.leaf, elseIfs])
  refine ⟨.node ⟨.ifStatement, children, pos⟩, ?_, ⟨_, rfl, trivial⟩⟩
  have hbranches : checked .elseIfList tail.elseIfs pos = .ok elseIfs := checked_ok htail.elseIfs
  have hwhole : checked .ifStatement children pos = .ok ⟨.ifStatement, children, pos⟩ :=
    checked_ok hshape
  rw [Plan.carryOut, hbranches]
  change Entry.node <$> checked .ifStatement children pos = _
  rw [hwhole]
  rfl

/-- A further branch goes in front of those behind it. -/
theorem succeeds_elseIfTail : elseIfTail.Succeeds := by
  intro parts h
  rcases h with ⟨_, _, rfl, ⟨_, rfl, _⟩, _, _, rfl, ⟨_, rfl, _⟩, _, _, rfl,
    ⟨condition, rfl, hcondition⟩, _, _, rfl, ⟨_, rfl, _⟩, _, _, rfl, ⟨body, rfl, hbody⟩, _, _, rfl,
    ⟨tail, rfl, htail⟩, rfl⟩
  refine ⟨_, rfl, Plan.makes_ready ⟨_, rfl, ?_, htail.elseClause, htail.endWord⟩⟩
  exact Node.shapeFault_elseIfList hcondition hbody htail.elseIfs

theorem succeeds_elseTail : elseTail.Succeeds := by
  intro parts h
  rcases h with ⟨_, _, rfl, ⟨_, rfl, _⟩, _, _, rfl, ⟨word, rfl, hword⟩, _, _, rfl, ⟨_, rfl, _⟩, _,
    _, rfl, ⟨body, rfl, hbody⟩, _, _, rfl, ⟨_, rfl, _⟩, _, _, rfl, ⟨last, rfl, hlast⟩, _, _, rfl,
    ⟨_, rfl, _⟩, rfl⟩
  obtain ⟨elsePos, rfl⟩ := Token.eq_keyword (word.holds_of_terminal hword)
  obtain ⟨endPos, rfl⟩ := Token.eq_keyword (last.holds_of_terminal hlast)
  have hcontent : body.kind = .content := hbody
  refine ⟨_, rfl, fun pos => ?_⟩
  have hclause : Node.shapeFault? .elseClause
      [.leaf (.identifier Keyword.elseWord.spelling) elsePos, body] = none :=
    Node.misfit_eq_none.2 (by simp [Role.admits, hcontent, Node.leaf, Keyword.spelling])
  let endWord : Node := .leaf (.identifier Keyword.endWord.spelling) endPos
  let clause : Node := ⟨.elseClause, [.leaf (.identifier "else") elsePos, body], pos⟩
  have htail : IfTail.Fits ⟨[], some clause, endWord⟩ := by
    refine ⟨Node.shapeFault_elseIfList_nil, ?_, rfl⟩
    rintro _ ⟨⟩
    rfl
  refine ⟨.tail ⟨[], some clause, endWord⟩, ?_, ⟨_, rfl, htail⟩⟩
  rw [Plan.carryOut, checked_ok hclause]
  rfl

theorem succeeds_endTail : endTail.Succeeds := by
  intro parts h
  rcases h with ⟨_, _, rfl, ⟨_, rfl, _⟩, _, _, rfl, ⟨last, rfl, hlast⟩, _, _, rfl, ⟨_, rfl, _⟩, rfl⟩
  obtain ⟨endPos, rfl⟩ := Token.eq_keyword (last.holds_of_terminal hlast)
  have htail : IfTail.Fits ⟨[], none, .leaf (.identifier Keyword.endWord.spelling) endPos⟩ := by
    refine ⟨Node.shapeFault_elseIfList_nil, ?_, rfl⟩
    rintro _ ⟨⟩
  exact ⟨_, rfl, Plan.makes_ready ⟨_, rfl, htail⟩⟩

/-- A loop takes its variable, its input and its body, wherever they stand in the rule. -/
theorem makes_forLoop {word input body : Node} {name : String}
    (hword : word.kind = .identifier name) (hinput : Nonterminal.loopInput.Fits input)
    (hbody : Nonterminal.content.Fits body) :
    (Plan.make .forLoop [word, input, body]).Makes fun entry => entry.Fits (.phrase .forLoop) := by
  have hrole : Role.loopInput.admits input.kind = true := hinput
  have hcontent : body.kind = .content := hbody
  have hname : Role.identifier.admits word.kind = true := by rw [hword]; rfl
  have hlast : Role.content.admits body.kind = true := by rw [hcontent]; rfl
  apply Plan.makes_make
  · apply Node.misfit_eq_none.2
    rintro pair hpair
    simp only [List.zip_cons_cons, List.zip_nil_right, List.mem_cons, List.not_mem_nil, or_false]
      at hpair
    rcases hpair with rfl | rfl | rfl
    · exact hname
    · exact hrole
    · exact hlast
  · exact fun pos => ⟨_, rfl, trivial⟩

theorem succeeds_forParenthesized : forParenthesized.Succeeds := by
  intro parts h
  rcases h with ⟨_, _, rfl, ⟨_, rfl, _⟩, _, _, rfl, ⟨_, rfl, _⟩, _, _, rfl, ⟨_, rfl, _⟩, _, _, rfl,
    ⟨var, rfl, hvar⟩, _, _, rfl, ⟨_, rfl, _⟩, _, _, rfl, ⟨input, rfl, hinput⟩, _, _, rfl,
    ⟨_, rfl, _⟩, _, _, rfl, ⟨_, rfl, _⟩, _, _, rfl, ⟨body, rfl, hbody⟩, _, _, rfl, ⟨_, rfl, _⟩, _,
    _, rfl, ⟨_, rfl, _⟩, _, _, rfl, ⟨_, rfl, _⟩, rfl⟩
  obtain ⟨name, varPos, rfl⟩ := Token.eq_identifier hvar
  exact ⟨_, rfl, makes_forLoop rfl hinput hbody⟩

theorem succeeds_forBare : forBare.Succeeds := by
  intro parts h
  rcases h with ⟨_, _, rfl, ⟨_, rfl, _⟩, _, _, rfl, ⟨_, rfl, _⟩, _, _, rfl, ⟨var, rfl, hvar⟩, _, _,
    rfl, ⟨_, rfl, _⟩, _, _, rfl, ⟨input, rfl, hinput⟩, _, _, rfl, ⟨_, rfl, _⟩, _, _, rfl,
    ⟨body, rfl, hbody⟩, _, _, rfl, ⟨_, rfl, _⟩, _, _, rfl, ⟨_, rfl, _⟩, _, _, rfl, ⟨_, rfl, _⟩, rfl⟩
  obtain ⟨name, varPos, rfl⟩ := Token.eq_identifier hvar
  exact ⟨_, rfl, makes_forLoop rfl hinput hbody⟩

theorem succeeds_argsNone : argsNone.Succeeds := by
  intro parts h
  subst h
  exact ⟨_, rfl, Plan.makes_make (Node.shapeFault_list (.inr rfl) _) fun pos => ⟨_, rfl, rfl⟩⟩

theorem succeeds_contentEmpty : contentEmpty.Succeeds := by
  intro parts h
  subst h
  exact ⟨_, rfl, Plan.makes_make (Node.shapeFault_list (.inl rfl) _) fun pos => ⟨_, rfl, rfl⟩⟩

/-- The rules for operations are the same but for the kind of what they make. -/
theorem succeeds_operator {rule : Rule}
    (h : rule ∈ [Rule.logic, .relation, .plus, .minus, .mult, .not, .negate]) :
    rule.Succeeds := by
  have hoperands {left right : Nonterminal}
      (h : ∀ n ∈ [left, right], n ∈ [Nonterminal.logicExpr, .relationExpr, .addExpr, .multExpr,
        .unaryExpr]) : ∀ n ∈ [left, right], n ≠ .ifRest ∧
          ∀ node, n.Fits node → node.kind.isExpression = true := by
    intro n hn
    have hmem := h n hn
    simp only [List.mem_cons, List.not_mem_nil, or_false] at hmem
    rcases hmem with rfl | rfl | rfl | rfl | rfl <;> exact ⟨by decide, fun _ hfits => hfits⟩
  have hfits {kind : ExprKind} (node : Node) (hkind : node.kind = .expression kind) :
      node.kind.isExpression = true := by rw [hkind]; rfl
  simp only [List.mem_cons, List.not_mem_nil, or_false] at h
  rcases h with rfl | rfl | rfl | rfl | rfl | rfl | rfl
  · exact succeeds_binary rfl rfl (by decide) (by decide) (by decide)
      (hoperands (by decide)) hfits
  · exact succeeds_binary rfl rfl (by decide) (by decide) (by decide)
      (hoperands (by decide)) hfits
  · exact succeeds_binary rfl rfl (by decide) (by decide) (by decide)
      (hoperands (by decide)) hfits
  · exact succeeds_binary rfl rfl (by decide) (by decide) (by decide)
      (hoperands (by decide)) hfits
  · exact succeeds_binary rfl rfl (by decide) (by decide) (by decide)
      (hoperands (by decide)) hfits
  · exact succeeds_unary (.inl ⟨rfl, rfl⟩)
  · exact succeeds_unary (.inr ⟨rfl, rfl⟩)

theorem succeeds_simpleName : simpleName.Succeeds := by
  intro parts h
  obtain ⟨_, _, rfl, ⟨token, rfl, htoken⟩, rfl⟩ := h
  obtain ⟨name, pos, rfl⟩ := Token.eq_identifier htoken
  exact ⟨_, rfl, Plan.makes_ready ⟨_, rfl, _, rfl⟩⟩

/-- Literals, names in several parts and pieces of text. -/
theorem succeeds_literal {rule : Rule} (h : rule ∈ [Rule.stringLiteral, .numberLiteral,
    .boolLiteral, .loopString, .dottedName, .itemText]) : rule.Succeeds := by
  simp only [List.mem_cons, List.not_mem_nil, or_false] at h
  rcases h with rfl | rfl | rfl | rfl | rfl | rfl <;>
    refine succeeds_constant rfl rfl (by decide) ?_ <;>
    rintro _ ⟨_, rfl⟩
  · exact ⟨_, rfl, fun _ => rfl⟩
  · exact ⟨_, rfl, fun _ => rfl⟩
  · exact ⟨_, rfl, fun _ => rfl⟩
  · exact ⟨_, rfl, fun _ => rfl⟩
  · exact ⟨_, rfl, fun _ => ⟨_, rfl⟩⟩
  · exact ⟨_, rfl, fun _ => trivial⟩

theorem isExpression_of_varName {kind : NodeKind} (h : ∃ parts, kind = .varName parts) :
    kind.isExpression = true := by
  obtain ⟨parts, rfl⟩ := h
  rfl

theorem admits_loopInput {kind : NodeKind}
    (h : (∃ parts, kind = .varName parts) ∨ kind = .funcCall) :
    Role.loopInput.admits kind = true := by
  rcases h with ⟨parts, rfl⟩ | rfl <;> rfl

/-- Every rule succeeds on parts that fit it. -/
theorem succeeds (rule : Rule) : rule.Succeeds := by
  cases rule
  case block => exact succeeds_block
  case printBlock => exact succeeds_printBlock
  case statementAppend => exact succeeds_statementAppend
  case statementTrailing => exact succeeds_statementTrailing
  case statementFirst => exact succeeds_statementFirst
  case assignment => exact succeeds_assignment
  case parenthesized => exact succeeds_parenthesized
  case funcCall => exact succeeds_funcCall
  case argsNone => exact succeeds_argsNone
  case argAppend => exact succeeds_argAppend
  case argFirst => exact succeeds_argFirst
  case ifStatement => exact succeeds_ifStatement
  case elseIfTail => exact succeeds_elseIfTail
  case elseTail => exact succeeds_elseTail
  case endTail => exact succeeds_endTail
  case forParenthesized => exact succeeds_forParenthesized
  case forBare => exact succeeds_forBare
  case contentAppend => exact succeeds_contentAppend
  case contentEmpty => exact succeeds_contentEmpty
  case logic | relation | plus | minus | mult | not | negate =>
    exact succeeds_operator (by decide)
  case stringLiteral | numberLiteral | boolLiteral | loopString | dottedName | itemText =>
    exact succeeds_literal (by decide)
  case simpleName => exact succeeds_simpleName
  -- What is left changes nothing but the name of a phrase.
  case start | unitBlock | unitPrintBlock | unitIf | unitFor | itemBlock | itemPrintBlock | itemIf
      | itemFor =>
    exact succeeds_only rfl rfl (by decide) (by decide) fun _ _ => trivial
  case exprLogic | logicRel | relAdd | addMult | multUnary | unaryTerm | argsSome =>
    exact succeeds_only rfl rfl (by decide) (by decide) fun _ hnode => hnode
  case termVar =>
    exact succeeds_only rfl rfl (by decide) (by decide)
      fun _ hnode => isExpression_of_varName hnode
  case termCall =>
    refine succeeds_only rfl rfl (by decide) (by decide) fun node hnode => ?_
    have hkind : node.kind = .funcCall := hnode
    exact congrArg NodeKind.isExpression hkind
  case loopVar =>
    exact succeeds_only rfl rfl (by decide) (by decide)
      fun _ hnode => admits_loopInput (.inl hnode)
  case loopCall =>
    exact succeeds_only rfl rfl (by decide) (by decide)
      fun _ hnode => admits_loopInput (.inr hnode)

/-- Building succeeds on fitting parts. -/
theorem build_fits (rule : Rule) {parts : List Entry} (ahead : Position)
    (h : Entry.FitAll rule.rhs parts) :
    ∃ entry, rule.build parts ahead = .ok entry ∧ entry.Fits (.phrase rule.lhs) := by
  obtain ⟨plan, hplan, hmakes⟩ := rule.succeeds parts h
  have hbuild : ∃ pos, rule.build parts ahead = plan.carryOut pos := by
    unfold build
    rw [hplan]
    exact ⟨_, rfl⟩
  obtain ⟨pos, hpos⟩ := hbuild
  obtain ⟨entry, hentry, hfits⟩ := hmakes pos
  exact ⟨entry, hpos.trans hentry, hfits⟩

end Rule

mutual

/-- Every derivation has an entry, and it fits the symbol. -/
theorem Derivation.entry_fits {symbol : GrammarSymbol} (d : Derivation symbol) (ahead : Position) :
    ∃ entry, d.entry ahead = .ok entry ∧ entry.Fits symbol := by
  cases d with
  | leaf token read => exact ⟨.token token, rfl, token, rfl, read⟩
  | node rule builds parts =>
    obtain ⟨entries, hentries, hfit⟩ := parts.entries_fit ahead
    obtain ⟨entry, hentry, hfits⟩ := rule.build_fits ahead hfit
    refine ⟨entry, ?_, by rwa [builds] at hfits⟩
    rw [Derivation.entry, hentries]
    exact hentry

/-- By induction on derivations: entries are built at every depth, and they fit. -/
theorem Derivations.entries_fit {symbols : List GrammarSymbol} (ds : Derivations symbols)
    (ahead : Position) :
    ∃ entries, ds.entries ahead = .ok entries ∧ Entry.FitAll symbols entries := by
  cases ds with
  | nil => exact ⟨[], rfl, rfl⟩
  | cons first rest =>
    obtain ⟨entry, hentry, hfits⟩ := first.entry_fits (placeOf ahead rest.yield)
    obtain ⟨entries, hentries, hfit⟩ := rest.entries_fit ahead
    refine ⟨entry :: entries, ?_, entry, entries, rfl, hfits, hfit⟩
    rw [Derivations.entries, hentry]
    simp only [bind, Except.bind, hentries]
    rfl

end

/-- A derivation's entry is built of the entries of its parts. -/
theorem Derivation.entry_eq_ok {n : Nonterminal} {rule : Rule} {builds : rule.lhs = n}
    {parts : Derivations rule.rhs} {ahead : Position} {entry : Entry}
    (h : (Derivation.node rule builds parts).entry ahead = .ok entry) :
    ∃ entries, parts.entries ahead = .ok entries ∧ Entry.FitAll rule.rhs entries ∧
      rule.build entries ahead = .ok entry := by
  obtain ⟨entries, hentries, hfit⟩ := parts.entries_fit ahead
  refine ⟨entries, hentries, hfit, ?_⟩
  rwa [Derivation.entry, hentries] at h

theorem Derivations.entries_cons_eq_ok {symbol : GrammarSymbol} {symbols : List GrammarSymbol}
    {first : Derivation symbol} {rest : Derivations symbols} {ahead : Position}
    {entries : List Entry} (h : (Derivations.cons first rest).entries ahead = .ok entries) :
    ∃ entry others, entries = entry :: others ∧
      first.entry (placeOf ahead rest.yield) = .ok entry ∧ rest.entries ahead = .ok others := by
  obtain ⟨entry, hentry, -⟩ := first.entry_fits (placeOf ahead rest.yield)
  obtain ⟨others, hothers, -⟩ := rest.entries_fit ahead
  rw [Derivations.entries, hentry] at h
  simp only [bind, Except.bind, hothers] at h
  cases h
  exact ⟨entry, others, rfl, hentry, hothers⟩

end PageTemplate
