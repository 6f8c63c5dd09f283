import Mathlib
import PageTemplate.Proofs.Scopes

/-!
Inclusions within inclusions. A template may include itself, and only the limit on the inclusions
under way ends that. The session's count of them is the depth to which they are nested, so what a
document comes to is found within as many levels as the limit leaves, and a higher limit changes
nothing about a run that has not met it.
-/

namespace PageTemplate

namespace Eval

variable {α β : Type} {counts : EvalError → Prop} {depth : Nat}

/-- Two steps that do the same while so many inclusions are under way, and leave as many, unless the
first of them fails in a way that does not count. -/
def AlikeAt (counts : EvalError → Prop) (depth : Nat) (step step' : Eval α) : Prop :=
  ∀ session : Session, session.depth = depth →
    (∀ e, (step.run session).1 = .error e → counts e) →
    step'.run session = step.run session ∧ (step.run session).2.depth = depth

namespace AlikeAt

variable {step step' step'' : Eval α}

theorem of_tidy (h : Tidy step) : AlikeAt counts depth step step := fun session hdepth _ =>
  ⟨rfl, (h session).depth.trans hdepth⟩

/-- Where every failure counts, steps that are alike do the same. -/
theorem run_eq {session : Session} (h : AlikeAt (fun _ => True) session.depth step step') :
    step.run session = step'.run session :=
  (h session rfl fun _ _ => trivial).1.symm

/-- Failures that count for the first two steps count for the third. -/
theorem trans (h : AlikeAt counts depth step step') (h' : AlikeAt counts depth step' step'') :
    AlikeAt counts depth step step'' := by
  intro session hdepth hcounts
  obtain ⟨hrun, hafter⟩ := h session hdepth hcounts
  obtain ⟨hrun', -⟩ := h' session hdepth (hrun.symm ▸ hcounts)
  exact ⟨hrun'.trans hrun, hafter⟩

/-- Steps that are alike one after the other are so together. -/
theorem bind (hstep : AlikeAt counts depth step step') {next next' : α → Eval β}
    (hnext : ∀ a, AlikeAt counts depth (next a) (next' a)) :
    AlikeAt counts depth (step >>= next) (step' >>= next') := by
  intro session hdepth hcounts
  have hfirst := hstep session hdepth
  rw [run_bind] at hcounts
  rw [run_bind, run_bind]
  rcases hrun : step.run session with ⟨e | a, after⟩
  -- a failure of the first part is the failure of the whole, so it counts there, too
  · rw [hrun] at hcounts hfirst
    have hfailure : ∀ e', (Except.error e : Except EvalError α) = .error e' → counts e' :=
      fun e' he => hcounts e' (congrArg Except.error (Except.error.inj he))
    obtain ⟨hrun', hafter⟩ := hfirst hfailure
    rw [hrun']
    exact ⟨rfl, hafter⟩
  · rw [hrun] at hcounts hfirst
    obtain ⟨hrun', hafter⟩ := hfirst nofun
    rw [hrun']
    exact hnext a after hafter hcounts

theorem get_bind {next next' : Session → Eval α}
    (h : ∀ session, session.depth = depth →
      AlikeAt counts depth (next session) (next' session)) :
    AlikeAt counts depth ((get : Eval Session) >>= next) ((get : Eval Session) >>= next') := by
  intro session hdepth hcounts
  rw [run_get_bind] at hcounts ⊢
  exact h session hdepth session hdepth hcounts

theorem inScope (h : AlikeAt counts depth step step') (scope : Context) :
    AlikeAt counts depth (Eval.inScope scope step) (Eval.inScope scope step') := by
  intro session hdepth hcounts
  rw [run_inScope] at hcounts ⊢
  obtain ⟨hrun, hafter⟩ := h { session with context := scope, exporting := false } hdepth hcounts
  rw [run_inScope, hrun]
  exact ⟨rfl, hafter⟩

/-- The count goes up for the body of an inclusion, and down again after it. -/
theorem deeper (h : AlikeAt counts (depth + 1) step step') :
    AlikeAt counts depth (Eval.deeper step) (Eval.deeper step') := by
  intro session hdepth hcounts
  rw [run_deeper] at hcounts ⊢
  obtain ⟨hrun, hafter⟩ :=
    h { session with depth := session.depth + 1 } (congrArg (· + 1) hdepth) hcounts
  rw [run_deeper, hrun]
  exact ⟨rfl, congrArg (· - 1) hafter⟩

end AlikeAt
end Eval

theorem Host.relates_alikeAt {counts : EvalError → Prop} {depth : Nat} {document : Document}
    {exported exported' : String → Eval (List Context)}
    {inclusion inclusion' : String → Context → Eval String}
    (hexported : ∀ path, Eval.AlikeAt counts depth (exported path) (exported' path))
    (hinclusion : ∀ key scope,
      Eval.AlikeAt counts depth (inclusion key scope) (inclusion' key scope)) :
    Host.Relates ⟨document, exported, inclusion⟩ ⟨document, exported', inclusion'⟩ Eq
      fun _ step step' => Eval.AlikeAt counts depth step step' where
  document := rfl
  pure a := .of_tidy (Eval.Steady.pure a).tidy
  throw _ := .of_tidy (Eval.Steady.throw _).tidy
  bind hstep hnext := hstep.bind hnext
  scope hnext := .get_bind fun session _ => hnext session.context session.context rfl
  merge known heq := congrArg (Context.merge · known) heq
  exported := hexported
  inclusion key scope _ heq := heq ▸ hinclusion key scope

namespace Evaluation

open Eval (AlikeAt)

section

variable (world : World) (document : Document)

def opening (text : List Node → Eval String) : Includer := fun key scope =>
  match world.templates.get? key with
  | none => throw (.unknownTemplate key)
  | some nodes => Eval.deeper (Eval.inScope scope (text nodes))

/-- The rule of inclusion, for templates that include by `inner`. With as many inclusions under way
as may be, another is refused before its template is looked for. Were a template evaluated while
more are under way, the alarm would take the place of its text. -/
def including (alarm : Eval String) (inner : Includer) : Includer := fun key scope => do
  if world.maxDepth ≤ (← get).depth then throw (.inclusionTooDeep (← get).depth key)
  else opening world (fun nodes => do
    if world.maxDepth < (← get).depth then alarm
    else renderNodes world document inner nodes) key scope

/-- Templates within templates to so many levels, whatever the session counts. What the innermost
of them ask for is refused. -/
def nested : Nat → Includer
  | 0 => fun key _ => throw (.inclusionTooDeep world.maxDepth key)
  | levels + 1 => opening world (renderNodes world document (nested levels))

end

variable {world world' : World} {document : Document} {includer includer' : Includer}
  {counts : EvalError → Prop} {depth : Nat}

/-- With an inclusion left, a template is opened with one less for what it includes. -/
theorem inclusionWithin_succ (remaining : Nat) :
    inclusionWithin world document (remaining + 1) =
      opening world (renderNodes world document (inclusionWithin world document remaining)) := by
  funext key scope
  rw [inclusionWithin]
  rfl

/-- Where the limit has been reached, nothing is looked for. -/
theorem run_including_of_le {session : Session} (h : world.maxDepth ≤ session.depth)
    (alarm : Eval String) (inner : Includer) (key : String) (scope : Context) :
    (including world document alarm inner key scope).run session =
      (.error (.inclusionTooDeep session.depth key), session) := by
  rw [including, Eval.run_get_bind, if_pos h]
  rfl

/-- A template is the same whatever includes further inside does the same. -/
theorem opening_alikeAt {text text' : List Node → Eval String}
    (htext : ∀ nodes, AlikeAt counts (depth + 1) (text nodes) (text' nodes)) (key : String)
    (scope : Context) :
    AlikeAt counts depth (opening world text key scope) (opening world text' key scope) := by
  unfold opening
  split
  · exact .of_tidy (Eval.Steady.throw _).tidy
  · next nodes _ => exact ((htext nodes).inScope scope).deeper

theorem exported_alikeAt (hlisting : world'.listing = world.listing) (path : String) :
    AlikeAt counts depth (exported world path) (exported world' path) := by
  have hsame : exported world' path = exported world path := by
    unfold exported
    rw [hlisting]
  rw [hsame]
  exact .of_tidy (exported_steady path).tidy

section

variable (hprelude : world.builtins = .prelude)

include hprelude

/-- Nodes do the same with inclusions that do the same. -/
theorem relates_alikeAt (hbuiltins : world'.builtins = world.builtins)
    (hlisting : world'.listing = world.listing)
    (hincluder : ∀ key scope, AlikeAt counts depth (includer key scope) (includer' key scope)) :
    Relates world world' document includer includer' (fun _ => True) fun _ step step' =>
      AlikeAt counts depth step step' where
  builtins := hbuiltins
  pure a := .of_tidy (Eval.Steady.pure a).tidy
  throw _ := .of_tidy (Eval.Steady.throw _).tidy
  bind hstep hnext := hstep.bind hnext
  checkInterrupt := .of_tidy Eval.Steady.checkInterrupt.tidy
  lookup _ _ := .get_bind fun _ _ => .of_tidy (Eval.Steady.pure _).tidy
  assign target value := .of_tidy (.assign document target value)
  iteration _ _ _ _ hbody := .get_bind fun _ _ => hbody.inScope _
  exported := exported_alikeAt hlisting
  call hget args :=
    (Host.relates_alikeAt (exported_alikeAt hlisting) hincluder).prelude (hprelude ▸ hget) args

/-- Nodes do the same if what they include does. -/
theorem evalNode_alikeAt
    (hincluder : ∀ key scope, AlikeAt counts depth (includer key scope) (includer' key scope))
    (node : Node) (hbuiltins : world'.builtins = world.builtins := by rfl)
    (hlisting : world'.listing = world.listing := by rfl) :
    AlikeAt counts depth (evalNode world document includer node)
      (evalNode world' document includer' node) :=
  (relates_alikeAt hprelude hbuiltins hlisting hincluder).evalNode node.namesOnly_true

theorem renderNodes_alikeAt
    (hincluder : ∀ key scope, AlikeAt counts depth (includer key scope) (includer' key scope))
    (nodes : List Node) (hbuiltins : world'.builtins = world.builtins := by rfl)
    (hlisting : world'.listing = world.listing := by rfl) :
    AlikeAt counts depth (renderNodes world document includer nodes)
      (renderNodes world' document includer' nodes) :=
  (relates_alikeAt hprelude hbuiltins hlisting hincluder).renderNodes fun node _ =>
    evalNode_alikeAt hprelude hincluder node hbuiltins hlisting

/-- An inclusion has as many more as the limit leaves. -/
theorem inclusionWithin_alikeAt (key : String) (scope : Context) :
    AlikeAt counts depth (inclusionWithin world document (world.maxDepth - depth) key scope)
      (inclusion world document key scope) := by
  intro session hdepth _
  subst hdepth
  have hsteady := @inclusionWithin_steady world document (hprelude ▸ Builtins.steady_prelude)
    (world.maxDepth - session.depth) key scope
  exact ⟨rfl, (hsteady.tidy session).depth⟩

/-- Below the limit an inclusion opens its template, which may include templates itself. -/
theorem inclusion_alikeAt_opening (hlt : depth < world.maxDepth) {text : List Node → Eval String}
    (htext : ∀ nodes, AlikeAt counts (depth + 1) (renderAll world document nodes) (text nodes))
    (key : String) (scope : Context) :
    AlikeAt counts depth (inclusion world document key scope) (opening world text key scope) := by
  have hinner (nodes : List Node) : AlikeAt counts (depth + 1)
      (renderNodes world document
        (inclusionWithin world document (world.maxDepth - (depth + 1))) nodes) (text nodes) :=
    (renderNodes_alikeAt hprelude (inclusionWithin_alikeAt hprelude) nodes).trans (htext nodes)
  -- one of the inclusions left is spent on the template, the others are left to it
  have hsucc : world.maxDepth - depth = world.maxDepth - (depth + 1) + 1 := by omega
  intro session hdepth hcounts
  rw [inclusion, Eval.run_get_bind, hdepth, hsucc, inclusionWithin_succ] at hcounts ⊢
  exact opening_alikeAt hinner key scope session hdepth hcounts

/-- Inclusion obeys its rule, with inclusions that do the same as it wherever the rule lets a
template ask for them. -/
theorem inclusion_alikeAt_including (alarm : Eval String) {inner : Includer}
    (hinner : depth < world.maxDepth → ∀ key scope,
      AlikeAt counts (depth + 1) (inclusion world document key scope) (inner key scope))
    (key : String) (scope : Context) :
    AlikeAt counts depth (inclusion world document key scope)
      (including world document alarm inner key scope) := by
  intro session hdepth hcounts
  by_cases hlt : depth < world.maxDepth
  · have htext (nodes : List Node) : AlikeAt counts (depth + 1) (renderAll world document nodes)
        (do
          if world.maxDepth < (← get).depth then alarm
          else renderNodes world document inner nodes) := by
      have hnodes : AlikeAt counts (depth + 1) (renderAll world document nodes)
          (renderNodes world document inner nodes) :=
        renderNodes_alikeAt hprelude (hinner hlt) nodes
      -- one inclusion deeper is still within the limit: no alarm
      intro within hwithin hcounts
      rw [Eval.run_get_bind, if_neg (by omega)]
      exact hnodes within hwithin hcounts
    rw [including, Eval.run_get_bind, if_neg (by omega)]
    exact inclusion_alikeAt_opening hprelude hlt htext key scope session hdepth hcounts
  · have hzero : world.maxDepth - session.depth = 0 := by omega
    rw [run_including_of_le (by omega), inclusion, Eval.run_get_bind, hzero, inclusionWithin]
    exact ⟨rfl, hdepth⟩

/-- By induction on the levels: so many applications of the rule reach the limit, so what lies
beyond them is never asked. -/
theorem inclusion_alikeAt_iterate (alarm : Eval String) (last : Includer) (levels : Nat)
    (hlevels : world.maxDepth ≤ depth + levels) (key : String) (scope : Context) :
    AlikeAt counts depth (inclusion world document key scope)
      ((including world document alarm)^[levels + 1] last key scope) := by
  induction levels generalizing depth key scope with
  | zero => exact inclusion_alikeAt_including hprelude alarm (fun hlt => by omega) key scope
  | succ levels ih =>
    rw [Function.iterate_succ_apply']
    exact inclusion_alikeAt_including hprelude alarm (fun _ => ih (by omega)) key scope

/-- Counting levels instead of looking at the session comes to the same. -/
theorem inclusion_alikeAt_nested (levels : Nat) (hlevels : depth + levels = world.maxDepth)
    (key : String) (scope : Context) :
    AlikeAt counts depth (inclusion world document key scope)
      (nested world document levels key scope) := by
  induction levels generalizing depth key scope with
  | zero =>
    intro session hdepth _
    have hzero : world.maxDepth - session.depth = 0 := by omega
    have hfull : session.depth = world.maxDepth := by omega
    rw [inclusion, Eval.run_get_bind, hzero, inclusionWithin, Eval.run_get_bind, hfull]
    exact ⟨rfl, hdepth⟩
  | succ levels ih =>
    exact inclusion_alikeAt_opening hprelude (by omega)
      (renderNodes_alikeAt hprelude (ih (by omega))) key scope

section

variable {limit : Nat} (hcounts : ∀ depth key, ¬ counts (.inclusionTooDeep depth key))

include hcounts

/-- By induction on the inclusions left: those that suffice suffice under a higher limit. -/
theorem inclusionWithin_alikeAt_of_le {remaining remaining' : Nat} (hle : remaining ≤ remaining')
    (key : String) (scope : Context) :
    AlikeAt counts depth (inclusionWithin world document remaining key scope)
      (inclusionWithin { world with maxDepth := limit } document remaining' key scope) := by
  induction remaining generalizing remaining' depth key scope with
  | zero =>
    -- all that comes of it is a refusal, and a refusal does not count
    intro session _ hfails
    rw [inclusionWithin] at hfails
    exact absurd (hfails _ rfl) (hcounts _ _)
  | succ remaining ih =>
    obtain ⟨more, rfl⟩ : ∃ more, remaining' = more + 1 := ⟨remaining' - 1, by omega⟩
    rw [inclusionWithin_succ, inclusionWithin_succ]
    have hinner (nodes : List Node) : AlikeAt counts (depth + 1)
        (renderNodes world document (inclusionWithin world document remaining) nodes)
        (renderNodes { world with maxDepth := limit } document
          (inclusionWithin { world with maxDepth := limit } document more) nodes) :=
      renderNodes_alikeAt hprelude (ih (Nat.le_of_succ_le_succ hle)) nodes
    exact opening_alikeAt hinner key scope

/-- Under a higher limit a document comes to the same, if it has not met the lower one. -/
theorem renderAll_alikeAt_of_le (hle : world.maxDepth ≤ limit) (nodes : List Node) :
    AlikeAt counts depth (renderAll world document nodes)
      (renderAll { world with maxDepth := limit } document nodes) := by
  have hinclusion (key : String) (scope : Context) :
      AlikeAt counts depth (inclusion world document key scope)
        (inclusion { world with maxDepth := limit } document key scope) :=
    .get_bind fun _ _ => inclusionWithin_alikeAt_of_le hprelude hcounts
      (Nat.sub_le_sub_right hle _) key scope
  rw [renderAll, renderAll]
  exact renderNodes_alikeAt hprelude hinclusion nodes

end
end

end Evaluation

open Evaluation in
/-- Inclusion obeys its rule. So every evaluation ends: with the rule applied once more often than
the limit leaves inclusions, nothing depends on what includes beyond that. No template is evaluated
while more inclusions are under way than may be, or the alarm would show. Only so many templates are
open within each other; the next inclusion is refused. What a document comes to without a refusal,
it comes to under every higher limit. -/
theorem inclusions_are_bounded {world : World} (hprelude : world.builtins = .prelude)
    (document : Document) :
    (∀ alarm key scope session, (inclusion world document key scope).run session =
      (including world document alarm (inclusion world document) key scope).run session) ∧
    (∀ alarm last node session, (eval world document node).run session =
      (evalNode world document
        ((including world document alarm)^[world.maxDepth - session.depth + 1] last)
          node).run session) ∧
    (∀ node session, session.depth ≤ world.maxDepth → (eval world document node).run session =
      (evalNode world document (nested world document (world.maxDepth - session.depth))
        node).run session) ∧
    (∀ key scope session, world.maxDepth ≤ session.depth →
      (inclusion world document key scope).run session =
        (.error (.inclusionTooDeep session.depth key), session)) ∧
    ∀ limit, world.maxDepth ≤ limit → ∀ nodes session result after,
      (renderAll world document nodes).run session = (result, after) →
      (∀ depth key, result ≠ .error (.inclusionTooDeep depth key)) →
      (renderAll { world with maxDepth := limit } document nodes).run session =
        (result, after) := by
  refine ⟨?_, ?_, ?_, ?_, ?_⟩
  · intro alarm key scope session
    have hself (_ : session.depth < world.maxDepth) (key : String) (scope : Context) :
        Eval.AlikeAt (fun _ => True) (session.depth + 1) (inclusion world document key scope)
          (inclusion world document key scope) :=
      .of_tidy (inclusion_steady (hprelude ▸ Builtins.steady_prelude) key scope).tidy
    exact (inclusion_alikeAt_including hprelude alarm hself key scope).run_eq
  · intro alarm last node session
    -- as many levels as are left; what stands below the last one is never asked
    have hle : world.maxDepth ≤ session.depth + (world.maxDepth - session.depth) := by omega
    have hlevels := @inclusion_alikeAt_iterate world document (fun _ => True) session.depth hprelude
      alarm last _ hle
    exact (evalNode_alikeAt hprelude hlevels node).run_eq
  · intro node session hle
    have hlevels := @inclusion_alikeAt_nested world document (fun _ => True) session.depth hprelude
      _ (Nat.add_sub_cancel' hle)
    exact (evalNode_alikeAt hprelude hlevels node).run_eq
  · intro key scope session hle
    rw [inclusion, Eval.run_get_bind, Nat.sub_eq_zero_of_le hle, inclusionWithin]
    rfl
  · intro limit hle nodes session result after hrun hresult
    have hcounts (depth : Nat) (key : String) : ¬ ∀ depth' key',
        EvalError.inclusionTooDeep depth key ≠ .inclusionTooDeep depth' key' :=
      fun hne => hne depth key rfl
    have halike := @renderAll_alikeAt_of_le world document
      (fun e => ∀ depth key, e ≠ .inclusionTooDeep depth key) session.depth hprelude limit hcounts
      hle nodes session rfl
    rw [hrun] at halike
    refine (halike fun e he depth key hdeep => ?_).1
    exact hresult depth key (he.trans (congrArg Except.error hdeep))

/-- `{{: template(key) }}` -/
def printedInclusion (key : String) : Node :=
  ⟨.printBlock, [⟨.funcCall, [.leaf (.identifier "template") ⟨1, 5⟩,
    ⟨.argsList, [.leaf (.stringLiteral key) ⟨1, 14⟩], ⟨1, 14⟩⟩], ⟨1, 5⟩⟩], ⟨1, 1⟩⟩

set_option maxRecDepth 2048 in
open Evaluation in
/-- Two templates that include each other are refused the fourth inclusion, and one that includes
nothing has its text under every limit. -/
theorem inclusions_are_bounded_in_circle :
    let world : World :=
      { templates := ((TemplateLibrary.empty.append "a" [printedInclusion "b"]).append "b"
          [.leaf (.text "again ") ⟨1, 1⟩, printedInclusion "a"]).append "c"
            [.leaf (.text "once") ⟨1, 1⟩]
        maxDepth := 3 }
    let document : Document := { path := .ofText "p" }
    world.builtins = .prelude ∧
      (eval world document (printedInclusion "a")).run {} =
        (.error (.inclusionTooDeep 3 "b"), {}) ∧
      ∀ limit, 3 ≤ limit →
        (renderAll { world with maxDepth := limit } document [printedInclusion "c"]).run {} =
          (.ok "once", {}) := by
  intro world document
  obtain ⟨-, -, hnested, -, hhigher⟩ := @inclusions_are_bounded world rfl document
  have hcircle : (eval world document (printedInclusion "a")).run {} =
      (.error (.inclusionTooDeep 3 "b"), {}) := by
    rw [hnested (printedInclusion "a") {} (Nat.zero_le 3)]
    cbv
  have honce : (renderAll world document [printedInclusion "c"]).run {} = (.ok "once", {}) := by
    cbv
  have hunrefused (depth : Nat) (key : String) :
      (Except.ok "once" : Except EvalError String) ≠ .error (.inclusionTooDeep depth key) := by
    intro h
    cases h
  exact ⟨rfl, hcircle, fun limit hle => hhigher limit hle _ _ _ _ honce hunrefused⟩

end PageTemplate
