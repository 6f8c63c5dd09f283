import Mathlib.Data.List.Forall2
import PageTemplate.Node.Shape

namespace PageTemplate

namespace Node

theorem sizeOf_lt_of_mem {node child : Node} (h : child ∈ node.children) :
    sizeOf child < sizeOf node := by
  obtain ⟨kind, children, pos⟩ := node
  have hlt : sizeOf child < sizeOf children := List.sizeOf_lt_of_mem h
  simp
  omega

/-- Children fit their roles one by one, wherever counting begins. -/
theorem misfit_eq_none {index : Nat} {roles : List Role} {children : List Node} :
    misfit? index roles children = none ↔
      ∀ pair ∈ roles.zip children, pair.1.admits pair.2.kind = true := by
  induction roles generalizing index children with
  | nil => cases children <;> simp [misfit?]
  | cons role roles ih =>
    cases children with
    | nil => simp [misfit?]
    | cons child children =>
      rw [List.zip_cons_cons, List.forall_mem_cons, ← @ih (index + 1), misfit?]
      by_cases h : role.admits child.kind = true
      · simp [h]
      · simp [h]

inductive Within : Node → Node → Prop
  | self (node : Node) : Within node node
  | child {inner child node : Node} : child ∈ node.children → Within inner child →
    Within inner node

/-- What is inside of something inside is inside. -/
theorem Within.trans {inner middle node : Node} (h : inner.Within middle)
    (hmiddle : middle.Within node) : inner.Within node := by
  induction hmiddle with
  | self => exact h
  | child hmem _ ih => exact .child hmem ih

def Throughout (property : Node → Prop) (node : Node) : Prop :=
  ∀ inner : Node, inner.Within node → property inner

variable {property : Node → Prop} {kind : NodeKind} {children : List Node} {pos : Position}

theorem Throughout.child {node child : Node} (h : node.Throughout property)
    (hmem : child ∈ node.children) : child.Throughout property :=
  fun inner hinner => h inner (.child hmem hinner)

/-- What holds throughout a node holds throughout its parts. -/
theorem Throughout.within {node inner : Node} (h : node.Throughout property)
    (hinner : inner.Within node) : inner.Throughout property :=
  fun _ hfurther => h _ (hfurther.trans hinner)

theorem throughout_iff : Throughout property ⟨kind, children, pos⟩ ↔
    property ⟨kind, children, pos⟩ ∧ ∀ child ∈ children, child.Throughout property := by
  refine ⟨fun h => ⟨h _ (.self _), fun child hmem => h.child hmem⟩, ?_⟩
  rintro ⟨hself, hchildren⟩ inner hinner
  cases hinner with
  | self => exact hself
  | child hmem hinner => exact hchildren _ hmem inner hinner

def WellShaped : Node → Prop :=
  Throughout fun node => shapeFault? node.kind node.children = none

theorem WellShaped.child {node child : Node} (h : node.WellShaped)
    (hmem : child ∈ node.children) : child.WellShaped :=
  Throughout.child h hmem

def CallsTakeExpressions : Node → Prop :=
  Throughout fun node => ∀ callee args pos, node = ⟨.funcCall, [callee, args], pos⟩ →
    ∀ arg ∈ args.children, arg.kind.isExpression = true

/-- Children that fit play the roles that their number gives them. -/
theorem forall₂_of_roles {roles : List Role} (h : shapeFault? kind children = none)
    (hroles : kind.roles children.length = .ok roles) (hlength : roles.length = children.length) :
    List.Forall₂ (fun role child => role.admits child.kind = true) roles children := by
  unfold shapeFault? at h
  rw [hroles] at h
  exact List.forall₂_iff_zip.2 ⟨hlength, fun hpair => misfit_eq_none.1 h _ hpair⟩

/-- The children of a kind whose children are known one by one. -/
theorem forall₂_of_fixedRoles {roles : List Role} (h : shapeFault? kind children = none)
    (hroles : kind.roles children.length = NodeKind.fixedRoles roles children.length) :
    List.Forall₂ (fun role child => role.admits child.kind = true) roles children := by
  by_cases hlength : children.length = roles.length
  · exact forall₂_of_roles h (hroles.trans (if_pos hlength)) hlength.symm
  · unfold shapeFault? at h
    rw [hroles, NodeKind.fixedRoles, if_neg hlength] at h
    cases h

/-- A node that computes something: a literal, a name, a call, an assignment or an operation, made
of nodes that do so, too. -/
inductive Computes : Node → Prop
  | name (parts : List String) (pos : Position) : Computes ⟨.varName parts, [], pos⟩
  | string (content : String) (pos : Position) : Computes ⟨.stringLiteral content, [], pos⟩
  | number (value : Int64) (pos : Position) : Computes ⟨.numberLiteral value, [], pos⟩
  | bool (value : Bool) (pos : Position) : Computes ⟨.boolLiteral value, [], pos⟩
  | call (name : String) {args : List Node} (namePos argsPos pos : Position) :
    (∀ arg ∈ args, Computes arg) →
    Computes ⟨.funcCall, [⟨.identifier name, [], namePos⟩, ⟨.argsList, args, argsPos⟩], pos⟩
  | assignment (target : List String) {value : Node} (targetPos pos : Position) :
    Computes value →
    Computes ⟨.expression .assignment, [⟨.varName target, [], targetPos⟩, value], pos⟩
  | unary (op : String) {operand : Node} (opPos pos : Position) : Computes operand →
    Computes ⟨.expression .unary, [⟨.operator op, [], opPos⟩, operand], pos⟩
  | binary {kind : ExprKind} (op : String) {left right : Node} (opPos pos : Position) :
    kind ≠ .assignment → kind ≠ .unary → Computes left → Computes right →
    Computes ⟨.expression kind, [left, ⟨.operator op, [], opPos⟩, right], pos⟩

/-- A kind that has no children has none in a node that fits. -/
theorem WellShaped.leaf (h : WellShaped ⟨kind, children, pos⟩)
    (hroles : ∀ count, kind.roles count = NodeKind.fixedRoles [] count) : children = [] := by
  cases forall₂_of_fixedRoles (h _ (.self _)) (hroles children.length)
  rfl

theorem WellShaped.eq_operator {node : Node} (h : node.WellShaped)
    (hadmits : Role.operator.admits node.kind = true) :
    ∃ op, node = ⟨.operator op, [], node.pos⟩ := by
  obtain ⟨kind, children, pos⟩ := node
  cases kind with
  | operator op => exact ⟨op, by rw [h.leaf fun _ => rfl]⟩
  | _ => cases hadmits

theorem WellShaped.eq_identifier {node : Node} (h : node.WellShaped)
    (hadmits : Role.identifier.admits node.kind = true) :
    ∃ name, node = ⟨.identifier name, [], node.pos⟩ := by
  obtain ⟨kind, children, pos⟩ := node
  cases kind with
  | identifier name => exact ⟨name, by rw [h.leaf fun _ => rfl]⟩
  | _ => cases hadmits

theorem WellShaped.eq_varName {node : Node} (h : node.WellShaped)
    (hadmits : Role.varName.admits node.kind = true) :
    ∃ parts, node = ⟨.varName parts, [], node.pos⟩ := by
  obtain ⟨kind, children, pos⟩ := node
  cases kind with
  | varName parts => exact ⟨parts, by rw [h.leaf fun _ => rfl]⟩
  | _ => cases hadmits

/-- An expression that calls everything with expressions is made of nodes that compute something. -/
theorem computes_of_wellShaped {node : Node} (hkind : node.kind.isExpression = true)
    (hshape : node.WellShaped) (hcalls : node.CallsTakeExpressions) : node.Computes := by
  -- on the size: the arguments of a call lie two levels further inside
  induction hsize : sizeOf node using Nat.strongRecOn generalizing node with
  | _ n ih =>
    have hchild {child : Node} (hmem : child ∈ node.children)
        (hexpr : child.kind.isExpression = true) : child.Computes := by
      have hlt := sizeOf_lt_of_mem hmem
      exact ih (sizeOf child) (hsize ▸ hlt) hexpr (hshape.child hmem) (hcalls.child hmem) rfl
    obtain ⟨kind, children, pos⟩ := node
    have hfits := hshape _ (.self _)
    cases kind with
    | varName parts =>
      rw [hshape.leaf fun _ => rfl]
      exact .name parts pos
    | stringLiteral content =>
      rw [hshape.leaf fun _ => rfl]
      exact .string content pos
    | numberLiteral value =>
      rw [hshape.leaf fun _ => rfl]
      exact .number value pos
    | boolLiteral value =>
      rw [hshape.leaf fun _ => rfl]
      exact .bool value pos
    | funcCall =>
      have hroles : List.Forall₂ _ [Role.identifier, .argsList] children :=
        forall₂_of_fixedRoles hfits rfl
      obtain _ | ⟨hcallee, _ | ⟨hargs, ⟨⟩⟩⟩ := hroles
      next callee args =>
        obtain ⟨name, hname⟩ := (hshape.child List.mem_cons_self).eq_identifier hcallee
        have hmem : args ∈ [callee, args] := List.mem_cons_of_mem _ List.mem_cons_self
        have hexprs := hcalls _ (.self _) callee args pos rfl
        have hsmaller : sizeOf args < n := hsize ▸ sizeOf_lt_of_mem hmem
        have harg {arg : Node} (harg : arg ∈ args.children) : arg.Computes := by
          have hlt := sizeOf_lt_of_mem harg
          exact ih (sizeOf arg) (by omega) (hexprs arg harg) ((hshape.child hmem).child harg)
            ((hcalls.child hmem).child harg) rfl
        obtain ⟨argsKind, args, argsPos⟩ := args
        cases argsKind with
        | argsList =>
          rw [hname]
          exact .call name callee.pos argsPos pos fun arg => harg
        | _ => cases hargs
    | expression kind =>
      cases kind with
      | assignment =>
        have hroles : List.Forall₂ _ [Role.varName, .expression] children :=
          forall₂_of_fixedRoles hfits rfl
        obtain _ | ⟨htarget, _ | ⟨hvalue, ⟨⟩⟩⟩ := hroles
        next target value =>
          obtain ⟨parts, hparts⟩ := (hshape.child List.mem_cons_self).eq_varName htarget
          rw [hparts]
          exact .assignment parts target.pos pos
            (hchild (List.mem_cons_of_mem _ List.mem_cons_self) hvalue)
      | unary =>
        have hroles : List.Forall₂ _ [Role.operator, .expression] children :=
          forall₂_of_fixedRoles hfits rfl
        obtain _ | ⟨hop, _ | ⟨hoperand, ⟨⟩⟩⟩ := hroles
        next op operand =>
          obtain ⟨spelling, hspelling⟩ := (hshape.child List.mem_cons_self).eq_operator hop
          rw [hspelling]
          exact .unary spelling op.pos pos
            (hchild (List.mem_cons_of_mem _ List.mem_cons_self) hoperand)
      | logic | relation | add | mult =>
        have hroles : List.Forall₂ _ [Role.expression, .operator, .expression] children :=
          forall₂_of_fixedRoles hfits rfl
        obtain _ | ⟨hleft, _ | ⟨hop, _ | ⟨hright, ⟨⟩⟩⟩⟩ := hroles
        next left op right =>
          obtain ⟨spelling, hspelling⟩ :=
            (hshape.child (List.mem_cons_of_mem _ List.mem_cons_self)).eq_operator hop
          have hrightmem : right ∈ [left, op, right] := by simp
          have hleft := hchild (List.mem_cons_self) hleft
          have hright := hchild hrightmem hright
          rw [hspelling]
          exact .binary spelling op.pos pos nofun nofun hleft hright
    | _ => cases hkind

end Node
end PageTemplate
