import PageTemplate.Proofs.Plans

namespace PageTemplate

/-- A node with fitting children, which are expressions if they are arguments. -/
structure Node.Proper (node : Node) : Prop where
  shape : shapeFault? node.kind node.children = none
  arguments : node.kind = .argsList → ∀ child ∈ node.children, child.kind.isExpression = true

def Node.Sound : Node → Prop := Throughout Proper

structure IfTail.Sound (rest : IfTail) : Prop where
  elseIfs : ∀ node ∈ rest.elseIfs, node.Sound
  elseClause : ∀ clause ∈ rest.elseClause, clause.Sound
  endWord : rest.endWord.Sound

def Entry.Sound : Entry → Prop
  | .token _ => True
  | .node root => root.Sound
  | .tail rest => rest.Sound

def Rule.Plan.Sound : Rule.Plan → Prop
  | .ready entry => entry.Sound
  | .make kind children => (∀ child ∈ children, child.Sound) ∧
    (kind = .argsList → ∀ child ∈ children, child.kind.isExpression = true)
  | .push list child => list.Sound ∧ child.Sound ∧
    (list.kind = .argsList → child.kind.isExpression = true)
  | .ifElse ifWord condition body rest =>
    ifWord.Sound ∧ condition.Sound ∧ body.Sound ∧ rest.Sound
  | .elseTail children endWord => (∀ child ∈ children, child.Sound) ∧ endWord.Sound

namespace Node

theorem sound_leaf {kind : NodeKind} (pos : Position) (h : shapeFault? kind [] = none) :
    (leaf kind pos).Sound :=
  throughout_iff.2 ⟨⟨h, fun _ => List.forall_mem_nil _⟩, List.forall_mem_nil _⟩

theorem sound_of_make {kind : NodeKind} {children : List Node} {pos : Position} {node : Node}
    (h : make kind children pos = .ok node) (hchildren : ∀ child ∈ children, child.Sound)
    (harguments : kind = .argsList → ∀ child ∈ children, child.kind.isExpression = true) :
    node.Sound := by
  unfold make at h
  split at h
  · cases h
  · next hshape =>
    cases h
    exact throughout_iff.2 ⟨⟨hshape, harguments⟩, hchildren⟩

/-- Adding a proper node to a proper list gives a proper list. -/
theorem sound_of_push {list child node : Node} (h : list.push child = .ok node)
    (hlist : list.Sound) (hchild : child.Sound)
    (harguments : list.kind = .argsList → child.kind.isExpression = true) : node.Sound := by
  unfold push at h
  split at h
  · refine sound_of_make h ?_ fun hkind => ?_
    · exact List.forall_mem_append.2
        ⟨fun _ hmem => Throughout.child hlist hmem, List.forall_mem_singleton.2 hchild⟩
    · exact List.forall_mem_append.2 ⟨(hlist list (.self list)).arguments hkind,
        List.forall_mem_singleton.2 (harguments hkind)⟩
  · cases h

end Node

theorem Node.IsLeaf.sound {node : Node} (h : node.IsLeaf) : node.Sound := by
  obtain ⟨kind, pos, rfl, hshape⟩ := h
  exact sound_leaf pos hshape

theorem Entry.sound_iff {entry : Entry} : entry.Sound ↔ ∀ node ∈ entry.nodes, node.Sound := by
  cases entry with
  | token _ => exact iff_of_true trivial (List.forall_mem_nil _)
  | node root => simp [Sound, nodes]
  | tail rest =>
    simp only [nodes, List.forall_mem_append, List.forall_mem_singleton, Option.mem_toList]
    exact ⟨fun h => ⟨⟨h.elseIfs, h.elseClause⟩, h.endWord⟩, fun h => ⟨h.1.1, h.1.2, h.2⟩⟩

namespace Rule

theorem checked_sound {kind : NodeKind} {children : List Node} {pos : Position} {node : Node}
    (h : checked kind children pos = .ok node) (hchildren : ∀ child ∈ children, child.Sound)
    (harguments : kind = .argsList → ∀ child ∈ children, child.kind.isExpression = true) :
    node.Sound := by
  unfold checked at h
  split at h
  · next made hmade =>
    cases h
    exact Node.sound_of_make hmade hchildren harguments
  · cases h

/-- A sound plan makes a sound entry. -/
theorem Plan.Sound.carryOut {plan : Plan} {pos : Position} {entry : Entry} (hplan : plan.Sound)
    (h : plan.carryOut pos = .ok entry) : entry.Sound := by
  cases plan with
  | ready made =>
    cases h
    exact hplan
  | make kind children =>
    obtain ⟨node, hnode, rfl⟩ := Parser.map_eq_ok h
    exact checked_sound hnode hplan.1 hplan.2
  | push list child =>
    rw [Plan.carryOut] at h
    split at h
    · next node hnode =>
      cases h
      exact Node.sound_of_push hnode hplan.1 hplan.2.1 hplan.2.2
    · cases h
  | ifElse ifWord condition body rest =>
    obtain ⟨hword, hcondition, hbody, hrest⟩ := hplan
    cases hbranches : checked .elseIfList rest.elseIfs pos with
    | error e =>
      rw [Plan.carryOut, hbranches] at h
      cases h
    | ok elseIfs =>
      rw [Plan.carryOut, hbranches] at h
      obtain ⟨node, hnode, rfl⟩ := Parser.map_eq_ok h
      -- the list of the further branches is made first and then stands among the children
      have hlist : elseIfs.Sound := checked_sound hbranches hrest.elseIfs NodeKind.noConfusion
      refine checked_sound hnode (fun child hchild => ?_) NodeKind.noConfusion
      simp only [List.cons_append, List.nil_append, List.mem_cons, List.mem_append,
        List.not_mem_nil, or_false, Option.mem_toList] at hchild
      rcases hchild with rfl | rfl | rfl | rfl | hclause | rfl
      · exact hword
      · exact hcondition
      · exact hbody
      · exact hlist
      · exact hrest.elseClause child hclause
      · exact hrest.endWord
  | elseTail children endWord =>
    cases hclause : checked .elseClause children pos with
    | error e =>
      rw [Plan.carryOut, hclause] at h
      cases h
    | ok clause =>
      rw [Plan.carryOut, hclause] at h
      cases h
      have hsound : clause.Sound := checked_sound hclause hplan.1 NodeKind.noConfusion
      exact ⟨List.forall_mem_nil _, fun _ hmem => Option.mem_some.1 hmem ▸ hsound, hplan.2⟩

variable {rule : Rule} {parts : List Entry} {plan : Plan}

/-- The rules ask for expressions in an argument list. -/
theorem isExpression_of_args {children : List Node} (hfit : Entry.FitAll rule.rhs parts)
    (h : rule.plan parts = .ok (.make .argsList children)) :
    ∀ child ∈ children, child.kind.isExpression = true := by
  have hmade := ((plan_fits hfit h).made _).1 ⟨children, rfl⟩
  cases rule
  case argsNone =>
    subst hfit
    cases h
    exact List.forall_mem_nil _
  case argFirst =>
    obtain ⟨_, _, rfl, ⟨arg, rfl, hexpr⟩, rfl⟩ := hfit
    cases h
    exact List.forall_mem_singleton.2 hexpr
  all_goals simp [made?] at hmade

/-- What the rules add to an argument list is an expression. -/
theorem isExpression_of_arg {list child : Node} (hfit : Entry.FitAll rule.rhs parts)
    (h : rule.plan parts = .ok (.push list child)) (hlist : list.kind = .argsList) :
    child.kind.isExpression = true := by
  have happends := (plan_fits hfit h).appended.1 ⟨list, child, rfl⟩
  cases rule
  case argAppend =>
    obtain ⟨_, _, rfl, ⟨_, rfl, _⟩, _, _, rfl, ⟨_, rfl, _⟩, _, _, rfl, ⟨arg, rfl, hexpr⟩, rfl⟩ :=
      hfit
    cases h
    exact hexpr
  -- The other lists that grow are no argument lists.
  case statementAppend =>
    obtain ⟨_, _, rfl, ⟨list, rfl, hkind, _⟩, _, _, rfl, ⟨_, rfl, _⟩, _, _, rfl, ⟨_, rfl, _⟩,
      rfl⟩ := hfit
    cases h
    rw [hlist] at hkind
    cases hkind
  case contentAppend =>
    obtain ⟨_, _, rfl, ⟨list, rfl, hkind⟩, _, _, rfl, ⟨_, rfl, _⟩, rfl⟩ := hfit
    have hcontent : list.kind = .content := hkind
    cases h
    rw [hlist] at hcontent
    cases hcontent
  all_goals simp [appends] at happends

/-- A rule's plan is sound if its parts are. -/
theorem plan_sound (hfit : Entry.FitAll rule.rhs parts)
    (hparts : ∀ part ∈ parts, part.Sound) (h : rule.plan parts = .ok plan) : plan.Sound := by
  have hsound : ∀ node ∈ plan.nodes, node.Sound := by
    obtain ⟨leaves, hleaves, hnodes⟩ := (plan_fits hfit h).nodes
    intro node hmem
    rcases (hnodes node).1 hmem with hleaf | ⟨part, hpart, hnode⟩
    · exact (hleaves node hleaf).sound
    · exact Entry.sound_iff.1 (hparts part hpart) node hnode
  cases plan with
  | ready entry => exact Entry.sound_iff.2 hsound
  | make kind children =>
    refine ⟨hsound, ?_⟩
    rintro rfl
    exact isExpression_of_args hfit h
  | push list child =>
    obtain ⟨hlist, hchild⟩ := List.forall_mem_cons.1 hsound
    exact ⟨hlist, List.forall_mem_singleton.1 hchild, isExpression_of_arg hfit h⟩
  | ifElse ifWord condition body rest =>
    obtain ⟨hfirst, hrest⟩ := List.forall_mem_append.1 hsound
    simp only [List.forall_mem_cons] at hfirst
    exact ⟨hfirst.1, hfirst.2.1, hfirst.2.2.1, Entry.sound_iff.2 hrest⟩
  | elseTail children endWord =>
    obtain ⟨hchildren, hend⟩ := List.forall_mem_append.1 hsound
    exact ⟨hchildren, List.forall_mem_singleton.1 hend⟩

/-- What is built of sound parts is sound. -/
theorem build_sound {ahead : Position} {entry : Entry}
    (hfit : Entry.FitAll rule.rhs parts) (hparts : ∀ part ∈ parts, part.Sound)
    (h : rule.build parts ahead = .ok entry) : entry.Sound := by
  unfold build at h
  dsimp only at h
  split at h
  · next plan hplan => exact (plan_sound hfit hparts hplan).carryOut h
  · cases h

end Rule

mutual

/-- By induction on derivations: building starts from leaves and keeps to proper nodes. -/
theorem Derivation.sound {symbol : GrammarSymbol} (d : Derivation symbol) {ahead : Position}
    {entry : Entry} (h : d.entry ahead = .ok entry) : entry.Sound := by
  cases d with
  | leaf token read =>
    cases h
    trivial
  | node rule builds parts =>
    obtain ⟨entries, hentries, hfit, hbuild⟩ := Derivation.entry_eq_ok h
    exact Rule.build_sound hfit (parts.sound hentries) hbuild

theorem Derivations.sound {symbols : List GrammarSymbol} (ds : Derivations symbols)
    {ahead : Position} {entries : List Entry} (h : ds.entries ahead = .ok entries) :
    ∀ entry ∈ entries, entry.Sound := by
  cases ds with
  | nil =>
    cases h
    exact List.forall_mem_nil _
  | cons first rest =>
    obtain ⟨entry, others, rfl, hentry, hothers⟩ := Derivations.entries_cons_eq_ok h
    exact List.forall_mem_cons.2 ⟨first.sound hentry, rest.sound hothers⟩

end

namespace Node

theorem Sound.wellShaped {node : Node} (h : node.Sound) : node.WellShaped :=
  fun inner hinner => (h inner hinner).shape

/-- A proper call has an argument list, and that holds expressions. -/
theorem Sound.callsTakeExpressions {node : Node} (h : node.Sound) : node.CallsTakeExpressions := by
  rintro inner hinner callee args pos rfl
  have hroles : List.Forall₂ _ [Role.identifier, .argsList] [callee, args] :=
    forall₂_of_fixedRoles (h _ hinner).shape rfl
  obtain _ | ⟨-, _ | ⟨hadmits, -⟩⟩ := hroles
  have hkind : args.kind = .argsList := by
    cases hkind : args.kind with
    | argsList => rfl
    | _ =>
      rw [hkind] at hadmits
      cases hadmits
  have hargs : args ∈ [callee, args] := List.mem_cons_of_mem _ List.mem_cons_self
  exact (h args (Within.trans (.child hargs (.self args)) hinner)).arguments hkind

end Node

theorem Piece.Makes.sound {piece : Piece} {root : Node} (h : piece.Makes root) : root.Sound := by
  cases piece with
  | text content pos =>
    rw [show root = _ from h]
    exact Node.sound_leaf pos rfl
  | unit d =>
    have hentry : d.entry ⟨0, 0⟩ = .ok (.node root) := h ⟨0, 0⟩
    exact d.sound hentry

/-- The parser makes sound trees. -/
theorem sound_of_parse {tokens : List Token} {roots : List Node} (h : parse tokens = .ok roots) :
    ∀ root ∈ roots, root.Sound := by
  obtain ⟨pieces, -, hmakes⟩ := Parser.idle_holds.pieces_of_readAll h
  clear h
  induction hmakes with
  | nil => exact List.forall_mem_nil _
  | cons hroot _ ih => exact List.forall_mem_cons.2 ⟨hroot.sound, ih⟩

def Node.Parsed (node : Node) : Prop :=
  ∃ tokens roots root, parse tokens = .ok roots ∧ root ∈ roots ∧ node.Within root

theorem Node.Parsed.sound {node : Node} (h : node.Parsed) : node.Sound := by
  obtain ⟨tokens, roots, root, hparse, hroot, hnode⟩ := h
  exact Throughout.within (sound_of_parse hparse root hroot) hnode

end PageTemplate
