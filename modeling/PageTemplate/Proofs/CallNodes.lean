import PageTemplate.Proofs.CallTokens
import PageTemplate.Proofs.Plans

namespace PageTemplate

def Entry.Holds (entry : Entry) (inner : Node) : Prop := ∃ node ∈ entry.nodes, inner.Within node

def Rule.Plan.Holds (plan : Plan) (inner : Node) : Prop := ∃ node ∈ plan.nodes, inner.Within node

variable {call : Node}

theorem Node.within_iff {inner : Node} {kind : NodeKind} {children : List Node} {pos : Position} :
    inner.Within ⟨kind, children, pos⟩ ↔
      inner = ⟨kind, children, pos⟩ ∨ ∃ child ∈ children, inner.Within child := by
  constructor
  · intro h
    cases h with
    | self => exact .inl rfl
    | child hmem hinner => exact .inr ⟨_, hmem, hinner⟩
  · rintro (rfl | ⟨child, hmem, hinner⟩)
    · exact .self _
    · exact .child hmem hinner

/-- There is no call in a leaf. -/
theorem Node.not_within_leaf {kind : NodeKind} (hcall : call.kind = .funcCall)
    (hkind : kind ≠ .funcCall) (pos : Position) : ¬ call.Within (.leaf kind pos) := by
  intro h
  rcases within_iff.1 h with rfl | ⟨_, hmem, _⟩
  · exact hkind hcall
  · cases hmem

theorem Node.IsLeaf.not_within {leaf : Node} (h : leaf.IsLeaf) (hcall : call.kind = .funcCall) :
    ¬ call.Within leaf := by
  obtain ⟨kind, pos, rfl, hshape⟩ := h
  apply not_within_leaf hcall
  rintro rfl
  cases hshape

namespace Rule

variable {parts : List Entry} {plan : Plan}

/-- The calls in what a rule puts together are those in its parts. -/
theorem Plan.Fits.holds_iff {rule : Rule} (h : plan.Fits rule parts)
    (hcall : call.kind = .funcCall) : plan.Holds call ↔ ∃ part ∈ parts, part.Holds call := by
  obtain ⟨leaves, hleaves, hnodes⟩ := h.nodes
  constructor
  · rintro ⟨node, hmem, hwithin⟩
    rcases (hnodes node).1 hmem with hleaf | ⟨part, hpart, hnode⟩
    · exact absurd hwithin ((hleaves node hleaf).not_within hcall)
    · exact ⟨part, hpart, node, hnode, hwithin⟩
  · rintro ⟨part, hpart, node, hnode, hwithin⟩
    exact ⟨node, (hnodes node).2 (.inr ⟨part, hpart, hnode⟩), hwithin⟩

/-- A node of another kind that is made of nodes has just their calls. -/
theorem within_checked {kind : NodeKind} {children : List Node} {pos : Position} {node : Node}
    (hcall : call.kind = .funcCall) (hkind : kind ≠ .funcCall)
    (h : checked kind children pos = .ok node) :
    call.Within node ↔ ∃ child ∈ children, call.Within child := by
  rw [eq_of_checked h, Node.within_iff, or_iff_right]
  rintro rfl
  exact hkind hcall

/-- A call in a longer list is in the list or in what has been added. -/
theorem within_push {list child node : Node} (hcall : call.kind = .funcCall)
    (h : list.push child = .ok node) :
    call.Within node ↔ call.Within list ∨ call.Within child := by
  obtain ⟨hlist, rfl⟩ := eq_of_push h
  have hkind : list.kind ≠ .funcCall := by
    intro hkind
    rw [hkind] at hlist
    cases hlist
  have hne {children : List Node} {pos : Position} : call ≠ ⟨list.kind, children, pos⟩ := by
    rintro rfl
    exact hkind hcall
  obtain ⟨kind, children, pos⟩ := list
  rw [Node.within_iff, Node.within_iff, or_iff_right hne, or_iff_right hne]
  simp only [List.mem_append, List.mem_singleton, or_and_right, exists_or, exists_eq_left]

/-- What is made of a plan has the calls of the plan, and it is one itself if a call is planned. -/
theorem holds_carryOut {pos : Position} {entry : Entry} (hcall : call.kind = .funcCall)
    (h : plan.carryOut pos = .ok entry) :
    entry.Holds call ↔
      plan.Holds call ∨ (∃ children, plan = .make .funcCall children) ∧ entry = .node call := by
  cases plan with
  | ready made =>
    cases h
    simp [Plan.Holds, Plan.nodes, Entry.Holds]
  | make kind children =>
    obtain ⟨node, hnode, rfl⟩ := Parser.map_eq_ok h
    by_cases hkind : kind = .funcCall
    · subst hkind
      rw [eq_of_checked hnode]
      simp [Plan.Holds, Plan.nodes, Entry.Holds, Entry.nodes, Node.within_iff, or_comm, eq_comm]
    · simp [Plan.Holds, Plan.nodes, Entry.Holds, Entry.nodes, hkind,
        within_checked hcall hkind hnode]
  | push list child =>
    rw [Plan.carryOut] at h
    split at h
    · next node hnode =>
      cases h
      simp [Plan.Holds, Plan.nodes, Entry.Holds, Entry.nodes, within_push hcall hnode]
    · cases h
  | ifElse ifWord condition body rest =>
    cases hbranches : checked .elseIfList rest.elseIfs pos with
    | error e =>
      rw [Plan.carryOut, hbranches] at h
      cases h
    | ok elseIfs =>
      rw [Plan.carryOut, hbranches] at h
      obtain ⟨node, hnode, rfl⟩ := Parser.map_eq_ok h
      -- two nodes are made here, and neither is a call
      have hwhole := within_checked hcall (by decide) hnode
      have hlist := within_checked hcall (by decide) hbranches
      simp [Plan.Holds, Plan.nodes, Entry.Holds, Entry.nodes, hwhole, hlist, or_and_right,
        exists_or]
  | elseTail children endWord =>
    cases hclause : checked .elseClause children pos with
    | error e =>
      rw [Plan.carryOut, hclause] at h
      cases h
    | ok clause =>
      rw [Plan.carryOut, hclause] at h
      cases h
      have hwhole := within_checked hcall (by decide) hclause
      simp [Plan.Holds, Plan.nodes, Entry.Holds, Entry.nodes, hwhole, or_and_right, exists_or]

/-- One rule makes calls. -/
theorem made_funcCall_iff {rule : Rule} : rule.made? = some .funcCall ↔ rule = .funcCall := by
  cases rule <;> simp [made?]

/-- Building keeps the calls in the parts of a rule, and the rule for calls makes one of its own. -/
theorem holds_build {rule : Rule} {ahead : Position} {entry : Entry}
    (hcall : call.kind = .funcCall) (hfit : Entry.FitAll rule.rhs parts)
    (h : rule.build parts ahead = .ok entry) :
    entry.Holds call ↔
      (∃ part ∈ parts, part.Holds call) ∨ rule = .funcCall ∧ entry = .node call := by
  obtain ⟨plan, pos, hplan, hentry⟩ := plan_of_build h
  have hfits := plan_fits hfit hplan
  rw [holds_carryOut hcall hentry, hfits.holds_iff hcall, hfits.made, made_funcCall_iff]

end Rule

theorem Rule.eq_funcCall (rule : Rule) (h : rule.lhs = .funcCall) : rule = .funcCall := by
  cases rule <;> first | rfl | cases h

def Node.MadeBy (call : Node) (part : Derivation (.phrase .funcCall)) : Prop :=
  ∀ ahead, part.entry ahead = .ok (.node call)

mutual

/-- The calls in the entry of a derivation are the entries of its calls. -/
theorem Derivation.holds_iff {symbol : GrammarSymbol} (d : Derivation symbol)
    (hcall : call.kind = .funcCall) {ahead : Position} {entry : Entry}
    (h : d.entry ahead = .ok entry) :
    entry.Holds call ↔
      ∃ part : Derivation (.phrase .funcCall), part.Within d ∧ call.MadeBy part := by
  cases d with
  | leaf token read =>
    cases h
    constructor
    · rintro ⟨_, hmem, _⟩
      cases hmem
    · rintro ⟨part, hpart, _⟩
      cases hpart
  | node rule builds parts =>
    obtain ⟨entries, hentries, hfit, hbuild⟩ := Derivation.entry_eq_ok h
    rw [Rule.holds_build hcall hfit hbuild, parts.holds_iff hcall hentries]
    constructor
    · rintro (⟨part, hpart, hmade⟩ | ⟨rfl, rfl⟩)
      · exact ⟨part, .parts hpart, hmade⟩
      · obtain rfl : Nonterminal.funcCall = _ := builds
        have hmade : Node.MadeBy call (.node .funcCall rfl parts) := by
          intro other
          rw [Derivation.entry_eq _ rfl other ahead, h]
        exact ⟨_, .self, hmade⟩
    · rintro ⟨part, hpart, hmade⟩
      cases hpart with
      | self =>
        rw [hmade ahead] at h
        cases h
        exact .inr ⟨Rule.eq_funcCall rule builds, rfl⟩
      | parts hcontains => exact .inl ⟨part, hcontains, hmade⟩

theorem Derivations.holds_iff {symbols : List GrammarSymbol} (ds : Derivations symbols)
    (hcall : call.kind = .funcCall) {ahead : Position} {entries : List Entry}
    (h : ds.entries ahead = .ok entries) :
    (∃ entry ∈ entries, entry.Holds call) ↔
      ∃ part : Derivation (.phrase .funcCall), ds.Contains part ∧ call.MadeBy part := by
  cases ds with
  | nil =>
    cases h
    constructor
    · rintro ⟨_, hmem, _⟩
      cases hmem
    · rintro ⟨part, hpart, _⟩
      cases hpart
  | cons first rest =>
    obtain ⟨entry, others, rfl, hentry, hothers⟩ := Derivations.entries_cons_eq_ok h
    rw [List.exists_mem_cons_iff, first.holds_iff hcall hentry, rest.holds_iff hcall hothers]
    constructor
    · rintro (⟨part, hpart, hmade⟩ | ⟨part, hpart, hmade⟩)
      · exact ⟨part, .first hpart, hmade⟩
      · exact ⟨part, .rest hpart, hmade⟩
    · rintro ⟨part, hpart, hmade⟩
      cases hpart with
      | first hfirst => exact .inl ⟨part, hfirst, hmade⟩
      | rest hrest => exact .inr ⟨part, hrest, hmade⟩

end

end PageTemplate
