import Mathlib
import PageTemplate.Node.Shown
import PageTemplate.Proofs.Branches

namespace PageTemplate

/-- The children that belong to a kind of node, by their kinds. -/
inductive NodeKind.Shape : NodeKind → List NodeKind → Prop
  | leaf {kind : NodeKind} : kind.isLeaf = true → Shape kind []
  | statementList {statements : List NodeKind} : statements ≠ [] →
    (∀ statement ∈ statements, statement.isExpression = true) → Shape .statementList statements
  | content (items : List NodeKind) : Shape .content items
  | argsList (args : List NodeKind) : Shape .argsList args
  | block : Shape .block [.statementList]
  | printBlock {expr : NodeKind} : expr.isExpression = true → Shape .printBlock [expr]
  | ifStatement {condition : NodeKind} : condition.isExpression = true →
    Shape .ifStatement [.identifier "if", condition, .content, .elseIfList, .identifier "end"]
  | ifElseStatement {condition : NodeKind} : condition.isExpression = true →
    Shape .ifStatement
      [.identifier "if", condition, .content, .elseIfList, .elseClause, .identifier "end"]
  | elseIfList {conditions : List NodeKind} :
    (∀ condition ∈ conditions, condition.isExpression = true) →
    Shape .elseIfList (conditions.flatMap fun condition => [condition, .content])
  | elseClause : Shape .elseClause [.identifier "else", .content]
  | forLoop (name : String) {input : NodeKind} : Role.loopInput.admits input = true →
    Shape .forLoop [.identifier name, input, .content]
  | funcCall (name : String) : Shape .funcCall [.identifier name, .argsList]
  | assignment (parts : List String) {value : NodeKind} : value.isExpression = true →
    Shape (.expression .assignment) [.varName parts, value]
  | unary (op : String) {operand : NodeKind} : operand.isExpression = true →
    Shape (.expression .unary) [.operator op, operand]
  | binary {kind : ExprKind} {left right : NodeKind} (op : String) : kind ≠ .assignment →
    kind ≠ .unary → left.isExpression = true → right.isExpression = true →
    Shape (.expression kind) [left, .operator op, right]

namespace Role

variable {kind : NodeKind}

@[simp] theorem admits_expression : Role.expression.admits kind = kind.isExpression := by
  cases kind <;> rfl

@[simp] theorem admits_statementList :
    Role.statementList.admits kind = true ↔ kind = .statementList := by
  cases kind <;> simp [admits]

@[simp] theorem admits_content : Role.content.admits kind = true ↔ kind = .content := by
  cases kind <;> simp [admits]

@[simp] theorem admits_elseIfList : Role.elseIfList.admits kind = true ↔ kind = .elseIfList := by
  cases kind <;> simp [admits]

@[simp] theorem admits_elseClause : Role.elseClause.admits kind = true ↔ kind = .elseClause := by
  cases kind <;> simp [admits]

@[simp] theorem admits_argsList : Role.argsList.admits kind = true ↔ kind = .argsList := by
  cases kind <;> simp [admits]

@[simp] theorem admits_identifier :
    Role.identifier.admits kind = true ↔ ∃ name, kind = .identifier name := by
  cases kind <;> simp [admits]

@[simp] theorem admits_varName :
    Role.varName.admits kind = true ↔ ∃ parts, kind = .varName parts := by
  cases kind <;> simp [admits]

@[simp] theorem admits_operator :
    Role.operator.admits kind = true ↔ ∃ op, kind = .operator op := by
  cases kind <;> simp [admits]

@[simp] theorem admits_keyword {word : String} :
    (Role.keyword word).admits kind = true ↔ kind = .identifier word := by
  cases kind <;> simp [admits]

@[simp] theorem admits_anything : Role.anything.admits kind = true := by
  cases kind <;> rfl

end Role

namespace NodeKind

variable {kind : NodeKind} {kinds : List NodeKind} {roles : List Role} {count : Nat}

def Plays (roles : List Role) (kinds : List NodeKind) : Prop :=
  List.Forall₂ (fun role kind => role.admits kind = true) roles kinds

/-- A role played by all children is one that each of them plays. -/
theorem plays_replicate_iff {role : Role} : Plays (List.replicate count role) kinds ↔
    kinds.length = count ∧ ∀ kind ∈ kinds, role.admits kind = true := by
  induction kinds generalizing count with
  | nil => cases count <;> simp [Plays, List.replicate_succ]
  | cons kind kinds ih =>
    cases count with
    | zero => simp [Plays]
    | succ count =>
      rw [Plays, List.replicate_succ, List.forall₂_cons, ← Plays, ih]
      simp [and_left_comm]

/-- Conditions and bodies by turns. -/
theorem plays_pairs_iff :
    Plays (List.replicate count [Role.expression, .content]).flatten kinds ↔
      ∃ conditions : List NodeKind, conditions.length = count ∧
        (∀ condition ∈ conditions, condition.isExpression = true) ∧
        kinds = conditions.flatMap fun condition => [condition, .content] := by
  induction count generalizing kinds with
  | zero => simp [Plays]
  | succ count ih =>
    have hcons : Plays (List.replicate (count + 1) [Role.expression, .content]).flatten kinds ↔
        ∃ condition rest, condition.isExpression = true ∧
          Plays (List.replicate count [Role.expression, .content]).flatten rest ∧
          kinds = condition :: .content :: rest := by
      simp [Plays, List.replicate_succ, List.forall₂_cons_left_iff]
    rw [hcons]
    constructor
    · rintro ⟨condition, rest, hcondition, hrest, rfl⟩
      obtain ⟨conditions, rfl, hconditions, rfl⟩ := ih.1 hrest
      exact ⟨condition :: conditions, rfl, List.forall_mem_cons.2 ⟨hcondition, hconditions⟩, rfl⟩
    · rintro ⟨_ | ⟨condition, conditions⟩, hlength, hconditions, rfl⟩
      · cases hlength
      · obtain ⟨hcondition, hconditions⟩ := List.forall_mem_cons.1 hconditions
        exact ⟨condition, _, hcondition,
          ih.2 ⟨conditions, Nat.succ.inj hlength, hconditions, rfl⟩, rfl⟩

theorem length_pairs (conditions : List NodeKind) :
    (conditions.flatMap fun condition => [condition, NodeKind.content]).length =
      2 * conditions.length := by
  simp [List.length_flatMap, Nat.mul_comm]

/-- Where the roles do not depend on the number of children. -/
theorem plays_of_fixedRoles {fixed : List Role} (hroles : fixedRoles fixed count = .ok roles)
    (h : Plays roles kinds) : Plays fixed kinds := by
  unfold fixedRoles at hroles
  split at hroles <;> cases hroles
  exact h

/-- What has the shape of a kind plays its roles. -/
theorem Shape.exists_roles (h : Shape kind kinds) :
    ∃ roles, kind.roles kinds.length = .ok roles ∧ Plays roles kinds := by
  cases h with
  | leaf hleaf =>
    refine ⟨[], ?_, .nil⟩
    cases kind <;> first | rfl | cases hleaf
  | statementList hne hexprs =>
    exact ⟨_, if_neg (mt List.length_eq_zero_iff.1 hne),
      plays_replicate_iff.2 ⟨rfl, fun statement hmem => hexprs statement hmem⟩⟩
  | content | argsList =>
    exact ⟨_, rfl, plays_replicate_iff.2 ⟨rfl, fun _ _ => Role.admits_anything⟩⟩
  | @elseIfList conditions hexprs =>
    have hroles := plays_pairs_iff.2 ⟨conditions, rfl, hexprs, rfl⟩
    refine ⟨_, if_pos ?_, ?_⟩
    · rw [length_pairs, Nat.mul_mod_right]
    · rwa [length_pairs, Nat.mul_div_cancel_left _ Nat.two_pos]
  | @binary kind left right op hassignment hunary hleft hright =>
    refine ⟨[.expression, .operator, .expression], ?_, by simp [Plays, hleft, hright]⟩
    cases kind <;> first | rfl | contradiction
  | _ => exact ⟨_, rfl, by simp [Plays, *]⟩

/-- Whoever plays the roles of a kind has its shape. -/
theorem shape_of_roles (hroles : kind.roles kinds.length = .ok roles) (h : Plays roles kinds) :
    Shape kind kinds := by
  cases kind with
  | statementList =>
    simp only [NodeKind.roles] at hroles
    split at hroles
    · cases hroles
    · next hne =>
      cases hroles
      refine .statementList (mt List.length_eq_zero_iff.2 hne) (plays_replicate_iff.1 h).2
  | content => exact .content kinds
  | argsList => exact .argsList kinds
  | ifStatement =>
    simp only [NodeKind.roles] at hroles
    split at hroles
    · cases hroles
      obtain _ | ⟨hif, _ | ⟨hcondition, _ | ⟨hbody, _ | ⟨hlist, _ | ⟨hend, ⟨⟩⟩⟩⟩⟩⟩ := h
      simp only [Role.admits_keyword, Role.admits_expression, Role.admits_content,
        Role.admits_elseIfList] at hif hcondition hbody hlist hend
      subst hif hbody hlist hend
      exact .ifStatement hcondition
    · split at hroles <;> cases hroles
      obtain _ | ⟨hif, _ | ⟨hcondition, _ | ⟨hbody, _ | ⟨hlist, _ | ⟨helse, _ | ⟨hend, ⟨⟩⟩⟩⟩⟩⟩⟩ := h
      simp only [Role.admits_keyword, Role.admits_expression, Role.admits_content,
        Role.admits_elseIfList, Role.admits_elseClause] at hif hcondition hbody hlist helse hend
      subst hif hbody hlist helse hend
      exact .ifElseStatement hcondition
  | elseIfList =>
    simp only [NodeKind.roles] at hroles
    split at hroles <;> cases hroles
    obtain ⟨conditions, -, hexprs, rfl⟩ := plays_pairs_iff.1 h
    exact .elseIfList hexprs
  | block =>
    obtain _ | ⟨hlist, ⟨⟩⟩ := plays_of_fixedRoles hroles h
    rw [Role.admits_statementList.1 hlist]
    exact .block
  | printBlock =>
    obtain _ | ⟨hexpr, ⟨⟩⟩ := plays_of_fixedRoles hroles h
    exact .printBlock (Role.admits_expression ▸ hexpr)
  | elseClause =>
    obtain _ | ⟨helse, _ | ⟨hbody, ⟨⟩⟩⟩ := plays_of_fixedRoles hroles h
    rw [Role.admits_keyword.1 helse, Role.admits_content.1 hbody]
    exact .elseClause
  | forLoop =>
    obtain _ | ⟨hname, _ | ⟨hinput, _ | ⟨hbody, ⟨⟩⟩⟩⟩ := plays_of_fixedRoles hroles h
    obtain ⟨name, rfl⟩ := Role.admits_identifier.1 hname
    rw [Role.admits_content.1 hbody]
    exact .forLoop name hinput
  | funcCall =>
    obtain _ | ⟨hname, _ | ⟨hargs, ⟨⟩⟩⟩ := plays_of_fixedRoles hroles h
    obtain ⟨name, rfl⟩ := Role.admits_identifier.1 hname
    rw [Role.admits_argsList.1 hargs]
    exact .funcCall name
  | expression kind =>
    cases kind with
    | assignment =>
      obtain _ | ⟨htarget, _ | ⟨hvalue, ⟨⟩⟩⟩ := plays_of_fixedRoles hroles h
      obtain ⟨parts, rfl⟩ := Role.admits_varName.1 htarget
      exact .assignment parts (Role.admits_expression ▸ hvalue)
    | unary =>
      obtain _ | ⟨hop, _ | ⟨hoperand, ⟨⟩⟩⟩ := plays_of_fixedRoles hroles h
      obtain ⟨op, rfl⟩ := Role.admits_operator.1 hop
      exact .unary op (Role.admits_expression ▸ hoperand)
    | logic | relation | add | mult =>
      obtain _ | ⟨hleft, _ | ⟨hop, _ | ⟨hright, ⟨⟩⟩⟩⟩ := plays_of_fixedRoles hroles h
      obtain ⟨op, rfl⟩ := Role.admits_operator.1 hop
      exact .binary op (by decide) (by decide) (Role.admits_expression ▸ hleft)
        (Role.admits_expression ▸ hright)
  | _ =>
    cases plays_of_fixedRoles hroles h
    exact .leaf rfl

/-- There is a role for every child. -/
theorem length_of_roles (h : kind.roles count = .ok roles) : roles.length = count := by
  have hfixed {fixed : List Role} (h : fixedRoles fixed count = .ok roles) :
      roles.length = count := by
    unfold fixedRoles at h
    split at h <;> cases h
    exact Eq.symm ‹_›
  cases kind with
  | content | argsList =>
    cases h
    exact List.length_replicate
  | statementList =>
    simp only [NodeKind.roles] at h
    split at h <;> cases h
    exact List.length_replicate
  | ifStatement =>
    simp only [NodeKind.roles] at h
    split at h
    · cases h
      exact Eq.symm ‹_›
    · split at h <;> cases h
      exact Eq.symm ‹_›
  | elseIfList =>
    simp only [NodeKind.roles] at h
    split at h <;> cases h
    rw [List.length_flatten, List.map_replicate, List.sum_replicate, smul_eq_mul]
    exact Nat.div_mul_cancel (Nat.dvd_of_mod_eq_zero ‹_›)
  | expression kind => cases kind <;> exact hfixed h
  | _ => exact hfixed h

/-- One more child never fits a node that holds no list. -/
theorem Shape.not_append (h : Shape kind kinds) (hlist : Node.isList kind = false)
    (child : NodeKind) : ¬ Shape kind (kinds ++ [child]) := by
  intro hmore
  obtain ⟨roles, hroles, hplays⟩ := hmore.exists_roles
  cases h with
  | statementList | content | argsList => cases hlist
  | leaf hleaf => cases kind <;> cases hleaf <;> cases hroles
  | ifStatement =>
    -- there may be six children, but the fifth of them would be the last word
    cases hroles
    obtain _ | ⟨-, _ | ⟨-, _ | ⟨-, _ | ⟨-, _ | ⟨helse, -⟩⟩⟩⟩⟩ := hplays
    cases helse
  | elseIfList =>
    rw [List.length_append, length_pairs] at hroles
    simp [NodeKind.roles, Nat.add_mod] at hroles
  | @binary kind => cases kind <;> cases hroles
  | _ => cases hroles

end NodeKind

namespace Node

variable {kind : NodeKind} {children : List Node} {pos : Position} {node child : Node}

def HasShape (node : Node) : Prop := node.kind.Shape (node.children.map Node.kind)

/-- The check asks for the shape and for nothing else. -/
theorem shapeFault?_eq_none_iff :
    shapeFault? kind children = none ↔ kind.Shape (children.map Node.kind) := by
  have hcount : (children.map Node.kind).length = children.length := List.length_map _
  constructor
  · intro h
    cases hroles : kind.roles children.length with
    | error fault =>
      rw [shapeFault?, hroles] at h
      cases h
    | ok roles =>
      have hplays := forall₂_of_roles h hroles (NodeKind.length_of_roles hroles)
      exact NodeKind.shape_of_roles (hcount ▸ hroles) (List.forall₂_map_right_iff.2 hplays)
  · intro h
    obtain ⟨roles, hroles, hplays⟩ := h.exists_roles
    rw [hcount] at hroles
    rw [shapeFault?, hroles]
    refine misfit_eq_none.2 fun pair hpair => ?_
    exact (List.forall₂_iff_zip.1 (List.forall₂_map_right_iff.1 hplays)).2 hpair

theorem WellShaped.hasShape (h : node.WellShaped) : node.HasShape :=
  shapeFault?_eq_none_iff.1 (h _ (.self _))

def AreStatements (statements : List Node) : Prop :=
  statements ≠ [] ∧ ∀ statement ∈ statements, statement.kind.isExpression = true

def ArePaired (nodes : List Node) : Prop :=
  unpaired (branches nodes) = nodes ∧ ∀ branch ∈ branches nodes,
    branch.1.kind.isExpression = true ∧ branch.2.kind = .content

/-- A view whose parts are children of the node, or children of these, and are what they are
supposed to be. -/
inductive Presents : Node → NodeView → Prop
  | text (content : String) (pos : Position) : Presents ⟨.text content, [], pos⟩ (.text content)
  | block {list : Node} (pos : Position) : list.kind = .statementList →
    AreStatements list.children → Presents ⟨.block, [list], pos⟩ (.block false list.children)
  | printBlock {expr : Node} (pos : Position) : expr.kind.isExpression = true →
    Presents ⟨.printBlock, [expr], pos⟩ (.block true [expr])
  | statementList {statements : List Node} (pos : Position) : AreStatements statements →
    Presents ⟨.statementList, statements, pos⟩ (.statementList statements)
  | content (items : List Node) (pos : Position) :
    Presents ⟨.content, items, pos⟩ (.content items)
  | ifStatement {ifWord condition body list endWord : Node} (pos : Position) :
    condition.kind.isExpression = true → body.kind = .content → list.kind = .elseIfList →
    ArePaired list.children →
    Presents ⟨.ifStatement, [ifWord, condition, body, list, endWord], pos⟩
      (.ifElse condition body list.children none)
  | ifElseStatement {ifWord condition body list elseWord elseBody endWord : Node}
    (elsePos pos : Position) : condition.kind.isExpression = true → body.kind = .content →
    list.kind = .elseIfList → ArePaired list.children → elseBody.kind = .content →
    Presents ⟨.ifStatement, [ifWord, condition, body, list,
        ⟨.elseClause, [elseWord, elseBody], elsePos⟩, endWord], pos⟩
      (.ifElse condition body list.children (some elseBody))
  | elseIfList {nodes : List Node} (pos : Position) : ArePaired nodes →
    Presents ⟨.elseIfList, nodes, pos⟩ (.elseIfList nodes)
  | elseClause {elseWord body : Node} (pos : Position) : body.kind = .content →
    Presents ⟨.elseClause, [elseWord, body], pos⟩ (.elseClause body)
  | forLoop {name : String} {var input body : Node} (pos : Position) :
    var.kind = .identifier name → Role.loopInput.admits input.kind = true →
    body.kind = .content → Presents ⟨.forLoop, [var, input, body], pos⟩ (.loop name input body)
  | funcCall {name : String} {callee list : Node} (pos : Position) :
    callee.kind = .identifier name → list.kind = .argsList →
    Presents ⟨.funcCall, [callee, list], pos⟩ (.call name list.children)
  | argsList (args : List Node) (pos : Position) : Presents ⟨.argsList, args, pos⟩ (.args args)
  | varName (parts : List String) (pos : Position) :
    Presents ⟨.varName parts, [], pos⟩ (.varName parts)
  | string (content : String) (pos : Position) :
    Presents ⟨.stringLiteral content, [], pos⟩ (.string content)
  | number (value : Int64) (pos : Position) :
    Presents ⟨.numberLiteral value, [], pos⟩ (.number value)
  | bool (value : Bool) (pos : Position) : Presents ⟨.boolLiteral value, [], pos⟩ (.bool value)
  | identifier (name : String) (pos : Position) :
    Presents ⟨.identifier name, [], pos⟩ (.identifier name)
  | operator (op : String) (pos : Position) : Presents ⟨.operator op, [], pos⟩ (.operator op)
  | assignment {parts : List String} {target value : Node} (pos : Position) :
    target.kind = .varName parts → value.kind.isExpression = true →
    Presents ⟨.expression .assignment, [target, value], pos⟩ (.assignment parts value)
  | binary {kind : ExprKind} {spelling : String} {left op right : Node} (pos : Position) :
    kind ≠ .assignment → kind ≠ .unary → left.kind.isExpression = true →
    op.kind = .operator spelling → right.kind.isExpression = true →
    Presents ⟨.expression kind, [left, op, right], pos⟩ (.binary kind left spelling right)
  | unary {spelling : String} {op operand : Node} (pos : Position) :
    op.kind = .operator spelling → operand.kind.isExpression = true →
    Presents ⟨.expression .unary, [op, operand], pos⟩ (.unary spelling operand)

variable {view : NodeView}

/-- A node has no view but the one that presents it. -/
theorem Presents.view?_eq (h : node.Presents view) : node.view? = some view := by
  cases h with
  | forLoop pos hvar => simp [view?, identifier?, hvar]
  | funcCall pos hcallee => simp [view?, identifier?, hcallee]
  | assignment pos htarget => simp [view?, varName?, htarget]
  | @binary kind spelling left op right pos hassignment hunary hleft hop =>
    cases kind <;> first | contradiction | simp [view?, operator?, hop]
  | unary pos hop => simp [view?, operator?, hop]
  | _ => rfl

theorem HasShape.areStatements (h : node.HasShape) (hkind : node.kind = .statementList) :
    AreStatements node.children := by
  rw [HasShape, hkind] at h
  generalize hkinds : node.children.map Node.kind = kinds at h
  cases h with
  | statementList hne hexprs =>
    subst hkinds
    exact ⟨fun hnil => hne (by rw [hnil]; rfl),
      fun statement hmem => hexprs _ (List.mem_map_of_mem hmem)⟩
  | leaf hleaf => cases hleaf

theorem arePaired_of_kinds {conditions : List NodeKind} {nodes : List Node}
    (hexprs : ∀ condition ∈ conditions, condition.isExpression = true)
    (h : nodes.map Node.kind = conditions.flatMap fun condition => [condition, .content]) :
    ArePaired nodes := by
  induction conditions generalizing nodes with
  | nil =>
    rw [List.map_eq_nil_iff.1 h]
    exact ⟨rfl, by simp [branches]⟩
  | cons condition conditions ih =>
    obtain ⟨hcondition, hlater⟩ := List.forall_mem_cons.1 hexprs
    obtain ⟨first, rest, rfl, rfl, hrest⟩ := List.map_eq_cons_iff.1 h
    obtain ⟨body, rest, rfl, hbody, hrest⟩ := List.map_eq_cons_iff.1 hrest
    obtain ⟨hpairs, hfit⟩ := ih hlater hrest
    refine ⟨congrArg (fun rest => first :: body :: rest) hpairs, fun branch hmem => ?_⟩
    rcases List.mem_cons.1 hmem with rfl | hmem
    · exact ⟨hcondition, hbody⟩
    · exact hfit branch hmem

theorem HasShape.arePaired (h : node.HasShape) (hkind : node.kind = .elseIfList) :
    ArePaired node.children := by
  rw [HasShape, hkind] at h
  generalize hkinds : node.children.map Node.kind = kinds at h
  cases h with
  | elseIfList hexprs => exact arePaired_of_kinds hexprs hkinds
  | leaf hleaf => cases hleaf

theorem HasShape.eq_elseClause (h : node.HasShape) (hkind : node.kind = .elseClause) :
    ∃ word body, node = ⟨.elseClause, [word, body], node.pos⟩ ∧ body.kind = .content := by
  obtain ⟨kind, children, pos⟩ := node
  obtain rfl : kind = .elseClause := hkind
  rw [HasShape] at h
  generalize hkinds : children.map Node.kind = kinds at h
  cases h with
  | elseClause =>
    simp only [List.map_eq_cons_iff, List.map_eq_nil_iff] at hkinds
    obtain ⟨word, _, rfl, -, body, _, rfl, hbody, rfl⟩ := hkinds
    exact ⟨word, body, rfl, hbody⟩
  | leaf hleaf => cases hleaf

/-- A view takes parts from the children of a node and from theirs. -/
theorem HasShape.presents (h : node.HasShape)
    (hchildren : ∀ child ∈ node.children, child.HasShape) : ∃ view, node.Presents view := by
  obtain ⟨kind, children, pos⟩ := node
  rw [HasShape] at h
  -- the shape speaks of the kinds alone; the children come back out of the list of kinds
  generalize hkinds : children.map Node.kind = kinds at h
  cases h with
  | leaf hleaf =>
    obtain rfl := List.map_eq_nil_iff.1 hkinds
    cases kind with
    | text content => exact ⟨_, .text content pos⟩
    | varName parts => exact ⟨_, .varName parts pos⟩
    | stringLiteral content => exact ⟨_, .string content pos⟩
    | numberLiteral value => exact ⟨_, .number value pos⟩
    | boolLiteral value => exact ⟨_, .bool value pos⟩
    | identifier name => exact ⟨_, .identifier name pos⟩
    | operator op => exact ⟨_, .operator op pos⟩
    | _ => cases hleaf
  | statementList hne hexprs =>
    refine ⟨_, .statementList pos ⟨?_, fun statement hmem => ?_⟩⟩
    · exact fun hnil => hne (by rw [← hkinds, hnil]; rfl)
    · exact hexprs _ (hkinds ▸ List.mem_map_of_mem hmem)
  | content => exact ⟨_, .content children pos⟩
  | argsList => exact ⟨_, .argsList children pos⟩
  | elseIfList hexprs => exact ⟨_, .elseIfList pos (arePaired_of_kinds hexprs hkinds)⟩
  | block =>
    obtain ⟨list, rfl, hlist⟩ := List.map_eq_singleton_iff.1 hkinds
    exact ⟨_, .block pos hlist ((hchildren list List.mem_cons_self).areStatements hlist)⟩
  | printBlock hexpr =>
    obtain ⟨expr, rfl, rfl⟩ := List.map_eq_singleton_iff.1 hkinds
    exact ⟨_, .printBlock pos hexpr⟩
  | ifStatement hcondition =>
    simp only [List.map_eq_cons_iff, List.map_eq_nil_iff] at hkinds
    obtain ⟨ifWord, _, rfl, -, condition, _, rfl, rfl, body, _, rfl, hbody, list, _, rfl, hlist,
      endWord, _, rfl, -, rfl⟩ := hkinds
    have hpaired := (hchildren list (by simp)).arePaired hlist
    exact ⟨_, .ifStatement pos hcondition hbody hlist hpaired⟩
  | ifElseStatement hcondition =>
    simp only [List.map_eq_cons_iff, List.map_eq_nil_iff] at hkinds
    obtain ⟨ifWord, _, rfl, -, condition, _, rfl, rfl, body, _, rfl, hbody, list, _, rfl, hlist,
      clause, _, rfl, hclause, endWord, _, rfl, -, rfl⟩ := hkinds
    have hpaired := (hchildren list (by simp)).arePaired hlist
    obtain ⟨elseWord, elseBody, heq, helse⟩ := (hchildren clause (by simp)).eq_elseClause hclause
    rw [heq]
    exact ⟨_, .ifElseStatement clause.pos pos hcondition hbody hlist hpaired helse⟩
  | elseClause =>
    simp only [List.map_eq_cons_iff, List.map_eq_nil_iff] at hkinds
    obtain ⟨elseWord, _, rfl, -, body, _, rfl, hbody, rfl⟩ := hkinds
    exact ⟨_, .elseClause pos hbody⟩
  | forLoop name hinput =>
    simp only [List.map_eq_cons_iff, List.map_eq_nil_iff] at hkinds
    obtain ⟨var, _, rfl, hvar, input, _, rfl, rfl, body, _, rfl, hbody, rfl⟩ := hkinds
    exact ⟨_, .forLoop pos hvar hinput hbody⟩
  | funcCall name =>
    simp only [List.map_eq_cons_iff, List.map_eq_nil_iff] at hkinds
    obtain ⟨callee, _, rfl, hcallee, list, _, rfl, hlist, rfl⟩ := hkinds
    exact ⟨_, .funcCall pos hcallee hlist⟩
  | assignment parts hvalue =>
    simp only [List.map_eq_cons_iff, List.map_eq_nil_iff] at hkinds
    obtain ⟨target, _, rfl, htarget, value, _, rfl, rfl, rfl⟩ := hkinds
    exact ⟨_, .assignment pos htarget hvalue⟩
  | unary op hoperand =>
    simp only [List.map_eq_cons_iff, List.map_eq_nil_iff] at hkinds
    obtain ⟨word, _, rfl, hop, operand, _, rfl, rfl, rfl⟩ := hkinds
    exact ⟨_, .unary pos hop hoperand⟩
  | binary op hassignment hunary hleft hright =>
    simp only [List.map_eq_cons_iff, List.map_eq_nil_iff] at hkinds
    obtain ⟨left, _, rfl, rfl, word, _, rfl, hop, right, _, rfl, rfl, rfl⟩ := hkinds
    exact ⟨_, .binary pos hassignment hunary hleft hop hright⟩

/-- The nodes that can be had: leaves, what is made of nodes and what is pushed onto one. -/
inductive Constructed : Node → Prop
  | leaf {kind : NodeKind} (pos : Position) : kind.isLeaf = true → Constructed (.leaf kind pos)
  | make {kind : NodeKind} {children : List Node} {pos : Position} {node : Node} :
    (∀ child ∈ children, Constructed child) → Node.make kind children pos = .ok node →
    Constructed node
  | push {list child node : Node} : Constructed list → Constructed child →
    list.push child = .ok node → Constructed node

/-- Nodes are made of what has the shape of their kind. -/
theorem make_eq_ok_iff :
    make kind children pos = .ok node ↔
      kind.Shape (children.map Node.kind) ∧ node = ⟨kind, children, pos⟩ := by
  rw [← shapeFault?_eq_none_iff, make]
  cases shapeFault? kind children with
  | none => simp [eq_comm]
  | some fault => simp

/-- A node fits throughout if it has its shape and its children fit. -/
theorem wellShaped_iff :
    WellShaped ⟨kind, children, pos⟩ ↔
      kind.Shape (children.map Node.kind) ∧ ∀ child ∈ children, child.WellShaped := by
  rw [WellShaped, throughout_iff, shapeFault?_eq_none_iff]

/-- Whatever can be had fits, by induction on how it has been had. -/
theorem Constructed.wellShaped (h : node.Constructed) : node.WellShaped := by
  induction h with
  | leaf pos hleaf => exact wellShaped_iff.2 ⟨.leaf hleaf, List.forall_mem_nil _⟩
  | make _ hmake ih =>
    obtain ⟨hshape, rfl⟩ := make_eq_ok_iff.1 hmake
    exact wellShaped_iff.2 ⟨hshape, ih⟩
  | @push list child node _ _ hpush hlist hchild =>
    rw [Node.push] at hpush
    split at hpush
    · obtain ⟨hshape, rfl⟩ := make_eq_ok_iff.1 hpush
      refine wellShaped_iff.2 ⟨hshape, fun inner hmem => ?_⟩
      rcases List.mem_append.1 hmem with hmem | hmem
      · exact hlist.child hmem
      · rwa [List.mem_singleton.1 hmem]
    · cases hpush

/-- Being had and having the right shapes inside come to the same. -/
theorem constructed_iff : node.Constructed ↔ node.WellShaped := by
  refine ⟨Constructed.wellShaped, fun h => ?_⟩
  induction hsize : sizeOf node using Nat.strongRecOn generalizing node with
  | _ n ih =>
    obtain ⟨kind, children, pos⟩ := node
    obtain ⟨hshape, hchildren⟩ := wellShaped_iff.1 h
    refine .make (fun child hmem => ?_) (make_eq_ok_iff.2 ⟨hshape, rfl⟩)
    exact ih (sizeOf child) (hsize ▸ sizeOf_lt_of_mem hmem) (hchildren child hmem) rfl

/-- Adding to a node that exists succeeds if the child belongs there, and only then. -/
theorem HasShape.push_eq_ok_iff {list : Node} (h : list.HasShape) : list.push child = .ok node ↔
    list.kind.Shape ((list.children ++ [child]).map Node.kind) ∧
      node = ⟨list.kind, list.children ++ [child], list.pos⟩ := by
  rw [push]
  split
  · exact make_eq_ok_iff
  · next hlist =>
    rw [List.map_append]
    refine iff_of_false (by simp) fun hmore => ?_
    exact h.not_append (Bool.eq_false_iff.2 hlist) child.kind hmore.1

/-- A node that exists has the shape of its kind, and so have all nodes inside it; each has a view,
made of its own children, in which every part is of the kind that the view promises. Nodes are made
of children, and a child is added to a node that exists, if the result has the shape of its kind;
otherwise there is none. -/
theorem constructed_nodes_fit (h : node.Constructed) :
    (∀ inner : Node, inner.Within node →
      inner.HasShape ∧ ∃ view, inner.view? = some view ∧ inner.Presents view) ∧
    (∀ child result : Node, node.push child = .ok result ↔
      node.kind.Shape ((node.children ++ [child]).map Node.kind) ∧
        result = ⟨node.kind, node.children ++ [child], node.pos⟩) ∧
    ∀ (kind : NodeKind) (children : List Node) (pos : Position) (result : Node),
      make kind children pos = .ok result ↔
        kind.Shape (children.map Node.kind) ∧ result = ⟨kind, children, pos⟩ := by
  have hshapes := h.wellShaped
  refine ⟨fun inner hinner => ?_, fun child result => hshapes.hasShape.push_eq_ok_iff,
    fun kind children pos result => make_eq_ok_iff⟩
  have hinside : inner.WellShaped := Throughout.within hshapes hinner
  obtain ⟨view, hview⟩ :=
    hinside.hasShape.presents fun child hmem => (hinside.child hmem).hasShape
  exact ⟨hinside.hasShape, view, hview.view?_eq, hview⟩

/-- A loop that prints a text, which has been added to its body. -/
def loopOverPosts : Node :=
  ⟨.forLoop, [.leaf (.identifier "post") ⟨1, 8⟩, .leaf (.varName ["posts"]) ⟨1, 16⟩,
    ⟨.content, [.leaf (.text "next") ⟨1, 25⟩], ⟨1, 25⟩⟩], ⟨1, 1⟩⟩

/-- A loop that has been pushed onto fits like any other node. -/
theorem constructed_nodes_fit_loop : loopOverPosts.Constructed ∧
    ∀ inner : Node, inner.Within loopOverPosts →
      inner.HasShape ∧ ∃ view, inner.view? = some view ∧ inner.Presents view := by
  have hname : (leaf (.identifier "post") ⟨1, 8⟩).Constructed := .leaf _ rfl
  have hinput : (leaf (.varName ["posts"]) ⟨1, 16⟩).Constructed := .leaf _ rfl
  have hempty : Constructed ⟨.content, [], ⟨1, 25⟩⟩ :=
    .make (List.forall_mem_nil _) (make_eq_ok_iff.2 ⟨.content [], rfl⟩)
  have hbody : Constructed ⟨.content, [.leaf (.text "next") ⟨1, 25⟩], ⟨1, 25⟩⟩ :=
    .push hempty (.leaf _ rfl) rfl
  have hchildren : ∀ child ∈ loopOverPosts.children, child.Constructed := by
    simp [loopOverPosts, hname, hinput, hbody]
  have hloop : loopOverPosts.Constructed :=
    .make hchildren (make_eq_ok_iff.2 ⟨.forLoop "post" rfl, rfl⟩)
  exact ⟨hloop, (constructed_nodes_fit hloop).1⟩

end Node

end PageTemplate
