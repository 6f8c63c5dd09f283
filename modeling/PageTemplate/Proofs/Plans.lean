import PageTemplate.Proofs.Pieces

namespace PageTemplate

def Entry.nodes : Entry → List Node
  | .token _ => []
  | .node root => [root]
  | .tail rest => rest.elseIfs ++ rest.elseClause.toList ++ [rest.endWord]

def Rule.Plan.nodes : Rule.Plan → List Node
  | .ready entry => entry.nodes
  | .make _ children => children
  | .push list child => [list, child]
  | .ifElse ifWord condition body rest => [ifWord, condition, body] ++ (Entry.tail rest).nodes
  | .elseTail children endWord => children ++ [endWord]

def Node.IsLeaf (node : Node) : Prop :=
  ∃ kind pos, node = .leaf kind pos ∧ shapeFault? kind [] = none

namespace Rule

def made? : Rule → Option NodeKind
  | .block => some .block
  | .printBlock => some .printBlock
  | .statementFirst => some .statementList
  | .assignment => some (.expression .assignment)
  | .logic => some (.expression .logic)
  | .relation => some (.expression .relation)
  | .plus | .minus => some (.expression .add)
  | .mult => some (.expression .mult)
  | .not | .negate => some (.expression .unary)
  | .funcCall => some .funcCall
  | .argsNone | .argFirst => some .argsList
  | .forParenthesized | .forBare => some .forLoop
  | .contentEmpty => some .content
  | _ => none

def appends : Rule → Bool
  | .statementAppend | .argAppend | .contentAppend => true
  | _ => false

/-- What a rule's plan has to do with the parts: its nodes are theirs and leaves, and the rule says
whether a node is made of them, of which kind, or one of them is put at the end of a list. -/
structure Plan.Fits (plan : Plan) (rule : Rule) (parts : List Entry) : Prop where
  made : ∀ kind, (∃ children, plan = .make kind children) ↔ rule.made? = some kind
  appended : (∃ list child, plan = .push list child) ↔ rule.appends = true
  nodes : ∃ leaves : List Node, (∀ leaf ∈ leaves, leaf.IsLeaf) ∧
    ∀ node, node ∈ plan.nodes ↔ node ∈ leaves ∨ ∃ part ∈ parts, node ∈ part.nodes

variable {rule : Rule} {parts : List Entry} {plan : Plan}

theorem Plan.fits_of_parts (made : ∀ kind, (∃ children, plan = .make kind children) ↔
      rule.made? = some kind)
    (appended : (∃ list child, plan = .push list child) ↔ rule.appends = true)
    (h : ∀ node, node ∈ plan.nodes ↔ ∃ part ∈ parts, node ∈ part.nodes) : plan.Fits rule parts := by
  refine ⟨made, appended, [], List.forall_mem_nil _, fun node => ?_⟩
  rw [h node]
  exact (or_iff_right List.not_mem_nil).symm

/-- A token of the rule has become a leaf. -/
theorem Plan.fits_of_leaf (kind : NodeKind) (pos : Position)
    (made : ∀ kind, (∃ children, plan = .make kind children) ↔ rule.made? = some kind)
    (appended : (∃ list child, plan = .push list child) ↔ rule.appends = true)
    (hleaf : Node.shapeFault? kind [] = none)
    (h : ∀ node, node ∈ plan.nodes ↔ node = .leaf kind pos ∨ ∃ part ∈ parts, node ∈ part.nodes) :
    plan.Fits rule parts := by
  refine ⟨made, appended, [.leaf kind pos], ?_, fun node => ?_⟩
  · exact List.forall_mem_singleton.2 ⟨kind, pos, rfl, hleaf⟩
  · rw [h node, List.mem_singleton]

/-- Checked rule by rule, with parts that fit the right-hand side. -/
theorem plan_fits (hfit : Entry.FitAll rule.rhs parts) (h : rule.plan parts = .ok plan) :
    plan.Fits rule parts := by
  cases rule
  case logic | relation | plus | minus | mult =>
    obtain ⟨_, _, rfl, ⟨left, rfl, _⟩, _, _, rfl, ⟨op, rfl, hop⟩, _, _, rfl, ⟨right, rfl, _⟩,
      rfl⟩ := hfit
    obtain ⟨spelling, hspelling⟩ := Token.operator_of_terminal (by decide) hop
    cases (plan_binary rfl hspelling).symm.trans h
    refine Plan.fits_of_leaf (.operator spelling) op.pos (by simp [made?]) (by simp [appends])
      rfl ?_
    simp [Plan.nodes, Entry.nodes, or_left_comm]
  case not | negate =>
    obtain ⟨_, _, rfl, ⟨op, rfl, hop⟩, _, _, rfl, ⟨operand, rfl, _⟩, rfl⟩ := hfit
    obtain ⟨spelling, hspelling⟩ := Token.operator_of_terminal (by decide) hop
    cases (plan_unary rfl hspelling).symm.trans h
    refine Plan.fits_of_leaf (.operator spelling) op.pos (by simp [made?]) (by simp [appends])
      rfl ?_
    simp [Plan.nodes, Entry.nodes]
  case stringLiteral | numberLiteral | boolLiteral | loopString | dottedName | simpleName |
      itemText =>
    obtain ⟨_, _, rfl, ⟨token, rfl, htoken⟩, rfl⟩ := hfit
    obtain ⟨content, hkind⟩ := token.holds_of_terminal htoken
    obtain ⟨kind, pos⟩ := token
    obtain rfl : kind = _ := hkind
    have hleaf : ∃ made, Node.shapeFault? made [] = none ∧
        plan = .ready (.node (.leaf made pos)) := by
      cases h
      exact ⟨_, rfl, rfl⟩
    obtain ⟨made, hshape, rfl⟩ := hleaf
    refine Plan.fits_of_leaf made pos (by simp [made?]) (by simp [appends]) hshape ?_
    simp [Plan.nodes, Entry.nodes]
  -- what is passed on was there before: nothing new is made
  case start | unitBlock | unitPrintBlock | unitIf | unitFor | itemBlock | itemPrintBlock | itemIf
      | itemFor | exprLogic | logicRel | relAdd | addMult | multUnary | unaryTerm | argsSome |
      termVar | termCall | loopVar | loopCall | statementFirst | argFirst =>
    obtain ⟨_, _, rfl, ⟨node, rfl, _⟩, rfl⟩ := hfit
    cases h
    refine Plan.fits_of_parts (by simp [made?]) (by simp [appends]) ?_
    simp [Plan.nodes, Entry.nodes]
  case statementAppend | argAppend | assignment =>
    obtain ⟨_, _, rfl, ⟨first, rfl, _⟩, _, _, rfl, ⟨_, rfl, _⟩, _, _, rfl, ⟨last, rfl, _⟩,
      rfl⟩ := hfit
    cases h
    refine Plan.fits_of_parts (by simp [made?]) (by simp [appends]) ?_
    simp [Plan.nodes, Entry.nodes]
  case block | printBlock | parenthesized =>
    obtain ⟨_, _, rfl, ⟨_, rfl, _⟩, _, _, rfl, ⟨inner, rfl, _⟩, _, _, rfl, ⟨_, rfl, _⟩, rfl⟩ := hfit
    cases h
    refine Plan.fits_of_parts (by simp [made?]) (by simp [appends]) ?_
    simp [Plan.nodes, Entry.nodes]
  case statementTrailing =>
    obtain ⟨_, _, rfl, ⟨list, rfl, _⟩, _, _, rfl, ⟨_, rfl, _⟩, rfl⟩ := hfit
    cases h
    refine Plan.fits_of_parts (by simp [made?]) (by simp [appends]) ?_
    simp [Plan.nodes, Entry.nodes]
  case contentAppend =>
    obtain ⟨_, _, rfl, ⟨content, rfl, _⟩, _, _, rfl, ⟨item, rfl, _⟩, rfl⟩ := hfit
    cases h
    refine Plan.fits_of_parts (by simp [made?]) (by simp [appends]) ?_
    simp [Plan.nodes, Entry.nodes]
  case argsNone | contentEmpty =>
    subst hfit
    cases h
    refine Plan.fits_of_parts (by simp [made?]) (by simp [appends]) ?_
    simp [Plan.nodes]
  case elseIfTail =>
    obtain ⟨_, _, rfl, ⟨_, rfl, _⟩, _, _, rfl, ⟨_, rfl, _⟩, _, _, rfl, ⟨condition, rfl, _⟩, _, _,
      rfl, ⟨_, rfl, _⟩, _, _, rfl, ⟨body, rfl, _⟩, _, _, rfl, ⟨rest, rfl, _⟩, rfl⟩ := hfit
    cases h
    refine Plan.fits_of_parts (by simp [made?]) (by simp [appends]) ?_
    simp [Plan.nodes, Entry.nodes]
  case ifStatement =>
    obtain ⟨_, _, rfl, ⟨_, rfl, _⟩, _, _, rfl, ⟨word, rfl, hword⟩, _, _, rfl, ⟨condition, rfl, _⟩,
      _, _, rfl, ⟨_, rfl, _⟩, _, _, rfl, ⟨body, rfl, _⟩, _, _, rfl, ⟨rest, rfl, _⟩, rfl⟩ := hfit
    obtain ⟨pos, rfl⟩ := Token.eq_keyword (word.holds_of_terminal hword)
    cases h
    refine Plan.fits_of_leaf (.identifier "if") pos (by simp [made?]) (by simp [appends]) rfl ?_
    simp [Plan.nodes, Entry.nodes, Keyword.spelling]
  -- the one rule that makes two leaves of words
  case elseTail =>
    obtain ⟨_, _, rfl, ⟨_, rfl, _⟩, _, _, rfl, ⟨word, rfl, hword⟩, _, _, rfl, ⟨_, rfl, _⟩, _, _,
      rfl, ⟨body, rfl, _⟩, _, _, rfl, ⟨_, rfl, _⟩, _, _, rfl, ⟨last, rfl, hlast⟩, _, _, rfl,
      ⟨_, rfl, _⟩, rfl⟩ := hfit
    obtain ⟨pos, rfl⟩ := Token.eq_keyword (word.holds_of_terminal hword)
    obtain ⟨endPos, rfl⟩ := Token.eq_keyword (last.holds_of_terminal hlast)
    cases h
    refine ⟨by simp [made?], by simp [appends], [.leaf (.identifier "else") pos,
      .leaf (.identifier "end") endPos], ?_, ?_⟩
    · exact List.forall_mem_cons.2
        ⟨⟨_, _, rfl, rfl⟩, List.forall_mem_singleton.2 ⟨_, _, rfl, rfl⟩⟩
    · simp [Plan.nodes, Entry.nodes, Keyword.spelling, or_comm, or_left_comm]
  case endTail =>
    obtain ⟨_, _, rfl, ⟨_, rfl, _⟩, _, _, rfl, ⟨last, rfl, hlast⟩, _, _, rfl, ⟨_, rfl, _⟩, rfl⟩ :=
      hfit
    obtain ⟨pos, rfl⟩ := Token.eq_keyword (last.holds_of_terminal hlast)
    cases h
    refine Plan.fits_of_leaf (.identifier "end") pos (by simp [made?]) (by simp [appends]) rfl ?_
    simp [Plan.nodes, Entry.nodes, Keyword.spelling]
  case funcCall =>
    obtain ⟨_, _, rfl, ⟨name, rfl, hname⟩, _, _, rfl, ⟨_, rfl, _⟩, _, _, rfl, ⟨args, rfl, _⟩, _, _,
      rfl, ⟨_, rfl, _⟩, rfl⟩ := hfit
    obtain ⟨callee, pos, rfl⟩ := Token.eq_identifier hname
    cases h
    refine Plan.fits_of_leaf (.identifier callee) pos (by simp [made?]) (by simp [appends]) rfl ?_
    simp [Plan.nodes, Entry.nodes]
  case forParenthesized =>
    obtain ⟨_, _, rfl, ⟨_, rfl, _⟩, _, _, rfl, ⟨_, rfl, _⟩, _, _, rfl, ⟨_, rfl, _⟩, _, _, rfl,
      ⟨var, rfl, hvar⟩, _, _, rfl, ⟨_, rfl, _⟩, _, _, rfl, ⟨input, rfl, _⟩, _, _, rfl, ⟨_, rfl, _⟩,
      _, _, rfl, ⟨_, rfl, _⟩, _, _, rfl, ⟨body, rfl, _⟩, _, _, rfl, ⟨_, rfl, _⟩, _, _, rfl,
      ⟨_, rfl, _⟩, _, _, rfl, ⟨_, rfl, _⟩, rfl⟩ := hfit
    obtain ⟨name, pos, rfl⟩ := Token.eq_identifier hvar
    cases h
    refine Plan.fits_of_leaf (.identifier name) pos (by simp [made?]) (by simp [appends]) rfl ?_
    simp [Plan.nodes, Entry.nodes]
  case forBare =>
    obtain ⟨_, _, rfl, ⟨_, rfl, _⟩, _, _, rfl, ⟨_, rfl, _⟩, _, _, rfl, ⟨var, rfl, hvar⟩, _, _, rfl,
      ⟨_, rfl, _⟩, _, _, rfl, ⟨input, rfl, _⟩, _, _, rfl, ⟨_, rfl, _⟩, _, _, rfl, ⟨body, rfl, _⟩, _,
      _, rfl, ⟨_, rfl, _⟩, _, _, rfl, ⟨_, rfl, _⟩, _, _, rfl, ⟨_, rfl, _⟩, rfl⟩ := hfit
    obtain ⟨name, pos, rfl⟩ := Token.eq_identifier hvar
    cases h
    refine Plan.fits_of_leaf (.identifier name) pos (by simp [made?]) (by simp [appends]) rfl ?_
    simp [Plan.nodes, Entry.nodes]

/-- What is built comes of a plan. -/
theorem plan_of_build {ahead : Position} {entry : Entry} (h : rule.build parts ahead = .ok entry) :
    ∃ plan pos, rule.plan parts = .ok plan ∧ plan.carryOut pos = .ok entry := by
  unfold build at h
  dsimp only at h
  split at h
  · next plan hplan => exact ⟨plan, _, hplan, h⟩
  · cases h

theorem eq_of_checked {kind : NodeKind} {children : List Node} {pos : Position} {node : Node}
    (h : checked kind children pos = .ok node) : node = ⟨kind, children, pos⟩ := by
  unfold checked Node.make at h
  split at h
  · next made hmade =>
    split at hmade <;> cases hmade
    cases h
    rfl
  · cases h

/-- Pushing adds the child at the end and keeps all else. -/
theorem eq_of_push {list child node : Node} (h : list.push child = .ok node) :
    Node.isList list.kind = true ∧ node = ⟨list.kind, list.children ++ [child], list.pos⟩ := by
  unfold Node.push Node.make at h
  split at h
  · next hlist =>
    split at h <;> cases h
    exact ⟨hlist, rfl⟩
  · cases h

variable {ahead : Position} {node : Node}

/-- A rule that passes on its only part. -/
theorem parts_of_pass {n : Nonterminal} (hrhs : rule.rhs = [.phrase n]) (hn : n ≠ .ifRest)
    (hreading : rule.reading = pass .node) (hfit : Entry.FitAll rule.rhs parts)
    (h : rule.build parts ahead = .ok (.node node)) : parts = [.node node] := by
  rw [hrhs] at hfit
  obtain ⟨entry, _, rfl, hentry, rfl⟩ := hfit
  obtain ⟨part, rfl, -⟩ := (Entry.fits_phrase hn).1 hentry
  obtain ⟨plan, pos, hmade, hcarried⟩ := plan_of_build h
  rw [Rule.plan, hreading] at hmade
  cases hmade
  cases hcarried
  rfl

/-- A rule that makes a node of its parts. -/
theorem eq_of_make {kind : NodeKind} {children : List Node}
    (hplan : rule.plan parts = .ok (.make kind children))
    (h : rule.build parts ahead = .ok (.node node)) :
    node.kind = kind ∧ node.children = children := by
  obtain ⟨plan, pos, hmade, hentry⟩ := plan_of_build h
  rw [hplan] at hmade
  cases hmade
  obtain ⟨made, hchecked, hmade⟩ := Parser.map_eq_ok hentry
  cases hmade
  rw [eq_of_checked hchecked]
  exact ⟨rfl, rfl⟩

/-- A rule that puts a part at the end of a list. -/
theorem children_of_push {list child : Node} (hplan : rule.plan parts = .ok (.push list child))
    (h : rule.build parts ahead = .ok (.node node)) :
    node.children = list.children ++ [child] := by
  obtain ⟨plan, pos, hmade, hentry⟩ := plan_of_build h
  rw [hplan] at hmade
  cases hmade
  rw [Plan.carryOut] at hentry
  split at hentry <;> cases hentry
  next hpush => rw [(eq_of_push hpush).2]

end Rule
end PageTemplate
