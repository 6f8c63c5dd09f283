import Mathlib
import PageTemplate.Proofs.ParsedTrees
import PageTemplate.Proofs.Scopes

namespace PageTemplate

namespace Node

def BindsNothing : Node → Prop := Throughout fun node => node.kind ≠ .expression .assignment

theorem bindsNothing_node (kind : NodeKind) {children : List Node} (pos : Position)
    (hkind : kind ≠ .expression .assignment) (h : ∀ child ∈ children, child.BindsNothing) :
    BindsNothing ⟨kind, children, pos⟩ :=
  throughout_iff.2 ⟨hkind, h⟩

theorem bindsNothing_leaf (kind : NodeKind) (pos : Position)
    (hkind : kind ≠ .expression .assignment) : BindsNothing ⟨kind, [], pos⟩ :=
  bindsNothing_node kind pos hkind (List.forall_mem_nil _)

end Node

/-- A step that has a result only if a fact holds, and then does nothing to the session but ask
whether to go on. -/
def Eval.Quiet {α : Type} (fact : Prop) (step : Eval α) : Prop :=
  ∀ (session : Session) (a : α) (after : Session), step.run session = (.ok a, after) →
    fact ∧ ∃ checks, after = session.waited checks

namespace Eval

variable {α β : Type} {fact first second : Prop}

/-- A step that never does anything is quiet whatever its fact, if only that holds. -/
theorem Steady.quiet {step : Eval α} (h : Steady step) (hfact : fact) : Quiet fact step := by
  intro session a after hrun
  have hafter := h session
  rw [hrun] at hafter
  exact ⟨hfact, hafter⟩

namespace Quiet

theorem pure (hfact : fact) (a : α) : Quiet fact (Pure.pure a : Eval α) :=
  (Steady.pure a).quiet hfact

theorem throw (e : EvalError) : Quiet fact (throw e : Eval α) := by
  intro session a after hrun
  cases hrun

/-- Both parts have a result where the whole has one, and the checks of both add up. -/
theorem bind {step : Eval α} {next : α → Eval β} (hstep : Quiet first step)
    (hnext : first → ∀ a, Quiet second (next a)) : Quiet second (step >>= next) := by
  intro session b after hrun
  obtain ⟨a, between, hfirst, hsecond⟩ := of_run_bind hrun
  obtain ⟨hfact, first, rfl⟩ := hstep session a between hfirst
  obtain ⟨hfact', second, rfl⟩ := hnext hfact a _ b after hsecond
  exact ⟨hfact', first + second, Session.waited_waited first second⟩

/-- What is done if the evaluation goes on. -/
theorem checked {step : Eval α} (h : Quiet fact step) :
    Quiet fact (do Eval.checkInterrupt; step) :=
  Quiet.bind (Steady.checkInterrupt.quiet trivial) fun _ _ => h

theorem ofExcept (hfact : fact) (result : Except EvalError α) :
    Quiet fact (Eval.ofExcept result) :=
  (Steady.ofExcept result).quiet hfact

theorem needValue {step : Eval (Option Value)} (h : Quiet fact step) (pos : Position) :
    Quiet fact (Evaluation.needValue pos step) := by
  refine h.bind fun hfact result => ?_
  cases result with
  | none => exact throw _
  | some value => exact pure hfact value

/-- A condition is quiet if its value is. -/
theorem needBool {pos : Position} {step : Eval (Option Value)}
    (h : Quiet fact (Evaluation.needValue pos step)) :
    Quiet fact (Evaluation.needBool pos step) := by
  refine h.bind fun hfact value => ?_
  split
  · exact pure hfact _
  · exact throw _

end Quiet
end Eval

namespace Evaluation

open Eval (Steady Quiet)

variable {world : World} {document : Document} {includer : Includer}

/-- Arguments are evaluated for their values, one after the other. -/
theorem evalArgs_quiet {args : List Node} (h : ∀ arg ∈ args,
      Quiet arg.BindsNothing (needValue arg.pos (evalNode world document includer arg))) :
    Quiet (∀ arg ∈ args, arg.BindsNothing) (evalArgs world document includer args) := by
  induction args with
  | nil =>
    rw [evalArgs]
    exact .pure (List.forall_mem_nil _) []
  | cons arg rest ih =>
    rw [evalArgs]
    obtain ⟨hfirst, hrest⟩ := List.forall_mem_cons.1 h
    refine hfirst.bind fun hbinds value => (ih hrest).bind fun hothers values => ?_
    exact .pure (List.forall_mem_cons.2 ⟨hbinds, hothers⟩) _

/-- The binding is made, but then there is no value. -/
theorem assignment_quiet {node : Node} {target : List String} {value : Node}
    {targetPos pos : Position} (hnode : node = ⟨.expression .assignment,
      [⟨.varName target, [], targetPos⟩, value], pos⟩) :
    Quiet node.BindsNothing (needValue pos (evalNode world document includer node)) := by
  intro session result after hrun
  obtain ⟨found, between, hfound, hresult⟩ := Eval.of_run_bind hrun
  subst hnode
  rw [evalNode] at hfound
  obtain ⟨_, _, -, hfound⟩ := Eval.of_run_bind hfound
  obtain ⟨_, _, -, hfound⟩ := Eval.of_run_bind hfound
  obtain ⟨_, _, -, hfound⟩ := Eval.of_run_bind hfound
  cases hfound
  cases hresult

/-- By induction on the node: its parts have values where the whole has one, and an assignment has
none. -/
theorem computes_quiet (hbuiltins : world.builtins.Steady) {node : Node} (h : node.Computes) :
    Quiet node.BindsNothing
      (needValue node.pos (evalNode world document (inclusion world document) node)) := by
  induction h with
  | name parts pos =>
    rw [evalNode]
    refine Quiet.needValue (.checked (Steady.quiet (.get_bind fun session => ?_)
      (Node.bindsNothing_leaf (.varName parts) pos NodeKind.noConfusion))) pos
    split
    · exact .pure _
    · exact .throw _
  | string content pos =>
    rw [evalNode]
    have hleaf := Node.bindsNothing_leaf (.stringLiteral content) pos NodeKind.noConfusion
    exact Quiet.needValue (.checked (.pure hleaf _)) pos
  | number value pos =>
    rw [evalNode]
    have hleaf := Node.bindsNothing_leaf (.numberLiteral value) pos NodeKind.noConfusion
    exact Quiet.needValue (.checked (.pure hleaf _)) pos
  | bool value pos =>
    rw [evalNode]
    have hleaf := Node.bindsNothing_leaf (.boolLiteral value) pos NodeKind.noConfusion
    exact Quiet.needValue (.checked (.pure hleaf _)) pos
  | @call name args namePos argsPos pos _ ih =>
    rw [evalNode]
    refine Quiet.needValue (.checked ?_) pos
    rcases callee_cases world name args.length pos with ⟨builtin, hget, heq⟩ | ⟨e, -, heq⟩
    · rw [heq, pure_bind]
      refine (evalArgs_quiet ih).bind fun hargs values => ?_
      refine Quiet.bind ((call_steady hbuiltins hget _).quiet trivial) fun _ result => ?_
      have hlist : Node.BindsNothing ⟨.argsList, args, argsPos⟩ :=
        Node.bindsNothing_node .argsList argsPos NodeKind.noConfusion hargs
      have hname := Node.bindsNothing_leaf (.identifier name) namePos NodeKind.noConfusion
      have hparts := List.forall_mem_cons.2 ⟨hname, List.forall_mem_singleton.2 hlist⟩
      exact .pure (Node.bindsNothing_node .funcCall pos NodeKind.noConfusion hparts) _
    · rw [heq]
      exact .throw e
  | assignment target targetPos pos _ _ => exact assignment_quiet rfl
  | unary op opPos pos _ ih =>
    rw [evalNode]
    refine Quiet.needValue (.checked (ih.bind fun hoperand value => ?_)) pos
    have hop := Node.bindsNothing_leaf (.operator op) opPos NodeKind.noConfusion
    refine Quiet.bind (.ofExcept trivial _) fun _ result => ?_
    refine .pure (Node.bindsNothing_node (.expression .unary) pos (by simp) ?_) _
    simp [hop, hoperand]
  | @binary kind op left right opPos pos hassign hunary _ _ ihleft ihright =>
    rw [evalNode]
    refine Quiet.needValue (.checked (ihleft.bind fun hleft lhs => ?_)) pos
    refine ihright.bind fun hright rhs => ?_
    have hop := Node.bindsNothing_leaf (.operator op) opPos NodeKind.noConfusion
    refine Quiet.bind (.ofExcept trivial _) fun _ result => ?_
    have hkind := fun heq => hassign (NodeKind.expression.inj heq)
    refine .pure (Node.bindsNothing_node (.expression kind) pos hkind ?_) _
    simp [hop, hleft, hright]

end Evaluation

open Evaluation in
/-- Evaluation for a value has no effects. If an expression has one, as an operand, as a condition
or as what a loop runs over, then the session is as it was, but that it has been asked whether to go
on, and nothing was bound on the way. This is so for all expressions that call everything with
expressions, as parsed trees do throughout. -/
theorem value_has_no_effects {world : World} (hprelude : world.builtins = .prelude)
    (document : Document) :
    (∀ node : Node, node.kind.isExpression = true → node.WellShaped → node.CallsTakeExpressions →
      ∀ session : Session,
        (∀ value after,
          (needValue node.pos (eval world document node)).run session = (.ok value, after) →
            (∃ checks, after = session.waited checks) ∧ node.BindsNothing) ∧
        (∀ holds after,
          (needBool node.pos (eval world document node)).run session = (.ok holds, after) →
            (∃ checks, after = session.waited checks) ∧ node.BindsNothing) ∧
        ∀ pos items after,
          (do loopItems world pos (← needValue node.pos (eval world document node))).run session =
            (.ok items, after) →
              (∃ checks, after = session.waited checks) ∧ node.BindsNothing) ∧
      ∀ tokens roots, parse tokens = .ok roots → ∀ root ∈ roots, ∀ node : Node, node.Within root →
        node.WellShaped ∧ node.CallsTakeExpressions := by
  have hbuiltins : world.builtins.Steady := hprelude ▸ Builtins.steady_prelude
  constructor
  · intro node hkind hshape hcalls session
    have hvalue : Eval.Quiet node.BindsNothing (needValue node.pos (eval world document node)) :=
      computes_quiet hbuiltins (Node.computes_of_wellShaped hkind hshape hcalls)
    -- a loop evaluates its input and then only lists and reads exports
    have hitems (pos : Position) : Eval.Quiet node.BindsNothing
        (do loopItems world pos (← needValue node.pos (eval world document node))) :=
      hvalue.bind fun hbinds value => (loopItems_steady pos value).quiet hbinds
    exact ⟨fun value after hrun => (hvalue session value after hrun).symm,
      fun holds after hrun => (hvalue.needBool session holds after hrun).symm,
      fun pos items after hrun => (hitems pos session items after hrun).symm⟩
  · intro tokens roots hparse root hroot node hnode
    have hsound : node.Sound := Node.Throughout.within (sound_of_parse hparse root hroot) hnode
    exact ⟨hsound.wellShaped, hsound.callsTakeExpressions⟩

/-- A template that binds `x` for itself and prints it. -/
def bindingTemplate : List Node :=
  [⟨.block, [⟨.statementList, [⟨.expression .assignment, [.leaf (.varName ["x"]) ⟨1, 4⟩,
      .leaf (.numberLiteral 1) ⟨1, 8⟩], ⟨1, 4⟩⟩], ⟨1, 4⟩⟩], ⟨1, 1⟩⟩,
    ⟨.printBlock, [.leaf (.varName ["x"]) ⟨1, 17⟩], ⟨1, 13⟩⟩]

/-- `template("t") + x` -/
def includedSum : Node :=
  ⟨.expression .add, [⟨.funcCall, [.leaf (.identifier "template") ⟨1, 5⟩,
      ⟨.argsList, [.leaf (.stringLiteral "t") ⟨1, 14⟩], ⟨1, 14⟩⟩], ⟨1, 5⟩⟩,
    .leaf (.operator "+") ⟨1, 19⟩, .leaf (.varName ["x"]) ⟨1, 21⟩], ⟨1, 5⟩⟩

def includedSumTokens : List Token :=
  [⟨.delimiter .printOpen, ⟨1, 1⟩⟩, ⟨.identifier "template", ⟨1, 5⟩⟩, ⟨.symbol '(', ⟨1, 13⟩⟩,
    ⟨.string "t", ⟨1, 14⟩⟩, ⟨.symbol ')', ⟨1, 17⟩⟩, ⟨.operator .plus "+", ⟨1, 19⟩⟩,
    ⟨.identifier "x", ⟨1, 21⟩⟩, ⟨.delimiter .blockClose, ⟨1, 23⟩⟩]

set_option maxRecDepth 2048 in
open Evaluation in
/-- The template binds an `x` of its own. Nobody waits for the sum any longer when it is there. -/
theorem includedSum_has_no_effects :
    let world : World := { templates := TemplateLibrary.empty.append "t" bindingTemplate }
    let document : Document := { path := .ofText "p" }
    let session : Session := { context := .ofList [("x", .int 5)], patience := some 9 }
    ∃ after, (needValue includedSum.pos (eval world document includedSum)).run session =
        (.ok (.str "15"), after) ∧ after.patience = some 0 ∧
      (∃ checks, after = session.waited checks) ∧ includedSum.BindsNothing := by
  intro world document session
  have hrun : (needValue includedSum.pos (eval world document includedSum)).run session =
      (.ok (.str "15"), session.waited 9) := by
    cbv
  have hparse : parse includedSumTokens = .ok [⟨.printBlock, [includedSum], ⟨1, 1⟩⟩] := by
    cbv
  obtain ⟨heffects, hparsed⟩ := @value_has_no_effects world rfl document
  have hwithin : includedSum.Within ⟨.printBlock, [includedSum], ⟨1, 1⟩⟩ :=
    .child List.mem_cons_self (.self includedSum)
  obtain ⟨hshape, hcalls⟩ := hparsed _ _ hparse _ List.mem_cons_self includedSum hwithin
  exact ⟨_, hrun, rfl, (heffects includedSum rfl hshape hcalls session).1 _ _ hrun⟩

end PageTemplate
