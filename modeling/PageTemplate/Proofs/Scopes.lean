import PageTemplate.Proofs.Steps

namespace PageTemplate

/-- What evaluation gives back of a session: all but the scope, and the exports if it may export. In
the meantime it asks whether to go on. -/
structure Session.Restored (before after : Session) : Prop where
  exporting : after.exporting = before.exporting
  depth : after.depth = before.depth
  patience : ∃ checks, after.patience = (before.waited checks).patience
  exports : before.exporting = false → after.exports = before.exports

/-- A step that restores the session, whether it fails or not. -/
def Eval.Tidy {α : Type} (step : Eval α) : Prop :=
  ∀ session : Session, session.Restored (step.run session).2

/-- A step that does nothing to the session but ask whether to go on, whether it fails or not. -/
def Eval.Steady {α : Type} (step : Eval α) : Prop :=
  ∀ session : Session, ∃ checks, (step.run session).2 = session.waited checks

namespace Eval

variable {α β : Type}

theorem Steady.tidy {step : Eval α} (h : Steady step) : Tidy step := by
  intro session
  obtain ⟨checks, hafter⟩ := h session
  rw [hafter]
  exact ⟨rfl, rfl, ⟨checks, rfl⟩, fun _ => rfl⟩

/-- A steady step leaves a session as it is that is never told to stop. -/
theorem Steady.eq {step : Eval α} (h : Steady step) {session : Session}
    (hgo : session.patience = none) : (step.run session).2 = session := by
  obtain ⟨checks, hafter⟩ := h session
  exact hafter.trans (Session.waited_of_none hgo checks)

namespace Steady

theorem pure (a : α) : Steady (Pure.pure a : Eval α) := fun _ => ⟨0, Session.waited_zero.symm⟩

theorem throw (e : EvalError) : Steady (throw e : Eval α) :=
  fun _ => ⟨0, Session.waited_zero.symm⟩

theorem bind {step : Eval α} {next : α → Eval β} (hstep : Steady step)
    (hnext : ∀ a, Steady (next a)) : Steady (step >>= next) := by
  intro session
  obtain ⟨first, hfirst⟩ := hstep session
  rw [run_bind]
  rcases hrun : step.run session with ⟨_ | a, after⟩
  · rw [hrun] at hfirst
    exact ⟨first, hfirst⟩
  · rw [hrun] at hfirst
    obtain rfl : after = session.waited first := hfirst
    obtain ⟨second, hsecond⟩ := hnext a (session.waited first)
    exact ⟨first + second, hsecond.trans (Session.waited_waited first second)⟩

theorem get_bind {next : Session → Eval α} (hnext : ∀ session, Steady (next session)) :
    Steady ((get : Eval Session) >>= next) := by
  intro session
  rw [run_get_bind]
  exact hnext session session

theorem ofExcept (result : Except EvalError α) : Steady (Eval.ofExcept result) := by
  cases result with
  | ok a => exact pure a
  | error e => exact throw e

theorem checkInterrupt : Steady Eval.checkInterrupt := by
  intro session
  rw [run_checkInterrupt]
  exact ⟨1, rfl⟩

/-- A scope of its own keeps everything that a tidy step does from the session. -/
theorem inScope {step : Eval α} (h : Tidy step) (scope : Context) :
    Steady (Eval.inScope scope step) := by
  intro session
  obtain ⟨-, hdepth, ⟨checks, hpatience⟩, hexports⟩ :=
    h { session with context := scope, exporting := false }
  refine ⟨checks, ?_⟩
  rw [run_inScope]
  dsimp only
  rw [hdepth, hpatience, hexports rfl]
  rfl

/-- The count of inclusions goes up before the step and down after it. -/
theorem deeper {step : Eval α} (h : Steady step) : Steady (Eval.deeper step) := by
  intro session
  obtain ⟨checks, hafter⟩ := h { session with depth := session.depth + 1 }
  refine ⟨checks, ?_⟩
  rw [run_deeper, hafter]
  rfl

end Steady

namespace Tidy

theorem bind {step : Eval α} {next : α → Eval β} (hstep : Tidy step)
    (hnext : ∀ a, Tidy (next a)) : Tidy (step >>= next) := by
  intro session
  have hfirst := hstep session
  rw [run_bind]
  rcases hrun : step.run session with ⟨_ | a, after⟩
  · rw [hrun] at hfirst
    exact hfirst
  · rw [hrun] at hfirst
    obtain ⟨first, hwaited⟩ := hfirst.patience
    obtain ⟨hexporting, hdepth, ⟨second, hpatience⟩, hexports⟩ := hnext a after
    refine ⟨hexporting.trans hfirst.exporting, hdepth.trans hfirst.depth, ⟨first + second, ?_⟩,
      fun hoff => (hexports (hfirst.exporting.trans hoff)).trans (hfirst.exports hoff)⟩
    rw [hpatience, ← Session.waited_waited, Session.waited, hwaited]
    rfl

theorem assign (document : Document) (target : List String) (value : Value) :
    Tidy (Eval.assign document target value) := by
  intro session
  refine ⟨rfl, rfl, ⟨0, ?_⟩, fun hoff => ?_⟩
  · rw [Session.waited_zero]
    rfl
  change (if session.exporting then _ else session.exports) = session.exports
  rw [hoff]
  rfl

end Tidy
end Eval

def Builtin.Steady (builtin : Builtin) : Prop :=
  ∀ (host : Host) (args : List Value), (∀ path, Eval.Steady (host.exported path)) →
    (∀ key scope, Eval.Steady (host.inclusion key scope)) → Eval.Steady (builtin.run host args)

def Builtins.Steady (builtins : Builtins) : Prop :=
  ∀ name builtin, builtins.get? name = some builtin → builtin.Steady

/-- A function can do no more to the session than what it asks for does. -/
theorem Host.inherits_steady {host : Host} (hexported : ∀ path, Eval.Steady (host.exported path))
    (hinclusion : ∀ key scope, Eval.Steady (host.inclusion key scope)) :
    host.Inherits fun _ step => Eval.Steady step where
  pure := .pure
  throw _ := .throw _
  bind := .bind
  scope hnext := .get_bind fun session => hnext session.context
  exported := hexported
  inclusion := hinclusion

/-- None of the functions that every template can call binds or exports anything. -/
theorem Builtins.steady_prelude : Builtins.prelude.Steady :=
  fun _ _ hget _ args hexported hinclusion =>
    (Host.inherits_steady hexported hinclusion).prelude hget args

namespace Evaluation

open Eval (Tidy Steady)

variable {world : World} {document : Document} {includer : Includer}

theorem exported_steady (path : String) : Steady (exported world path) := by
  unfold exported
  split
  · exact .throw _
  · exact .get_bind fun _ => .pure _

theorem loopItems_steady (pos : Position) (value : Value) :
    Steady (loopItems world pos value) := by
  unfold loopItems
  split
  · exact .pure _
  · exact (exported_steady _).bind fun _ => .pure _
  · exact .throw _

/-- Every node is tidy if inclusions are steady. -/
theorem inherits_tidy (hbuiltins : world.builtins.Steady)
    (hincluder : ∀ key scope, Steady (includer key scope)) :
    Inherits world document includer fun _ step => Tidy step where
  pure a := (Steady.pure a).tidy
  throw _ := (Steady.throw _).tidy
  bind := .bind
  checkInterrupt := Steady.checkInterrupt.tidy
  lookup _ := (Steady.get_bind fun _ => .pure _).tidy
  assign := .assign document
  iteration _ _ _ hbody := (Steady.get_bind fun _ => .inScope hbody _).tidy
  exported path := (exported_steady path).tidy
  call hget args := (hbuiltins _ _ hget ⟨document, exported world, includer⟩ args exported_steady
    hincluder).tidy

/-- A loop is steady, whatever becomes of its rounds. -/
theorem eachItem_steady {body : Eval String} (hbody : Tidy body) (var : String)
    (items : List Value) : Steady (eachItem var body items) := by
  induction items with
  | nil => exact .pure []
  | cons item items ih =>
    have hround : Steady (do
        let scope := (← get).context.merge (.ofList [(var, item)])
        Eval.inScope scope body) := .get_bind fun session => .inScope hbody _
    have hrest (text : String) : Steady (do return text :: (← eachItem var body items)) :=
      ih.bind fun texts => .pure _
    exact Steady.checkInterrupt.bind fun _ => (hround.bind hrest :)

/-- A document, or a template, is tidy if its inclusions are steady. -/
theorem renderNodes_tidy (hbuiltins : world.builtins.Steady)
    (hincluder : ∀ key scope, Steady (includer key scope)) (nodes : List Node) :
    Tidy (renderNodes world document includer nodes) :=
  (inherits_tidy hbuiltins hincluder).renderNodes nodes

/-- By induction on the inclusions left: the scope of a template takes in what its nodes do. -/
theorem inclusionWithin_steady (hbuiltins : world.builtins.Steady) (remaining : Nat) (key : String)
    (scope : Context) : Steady (inclusionWithin world document remaining key scope) := by
  induction remaining generalizing key scope with
  | zero =>
    rw [inclusionWithin]
    exact .get_bind fun _ => .throw _
  | succ remaining ih =>
    rw [inclusionWithin]
    split
    · exact .throw _
    · next nodes _ =>
      exact .deeper (.inScope (renderNodes_tidy hbuiltins ih nodes) scope)

/-- An inclusion gives the session back, whether it fails or not. -/
theorem inclusion_steady (hbuiltins : world.builtins.Steady) (key : String) (scope : Context) :
    Steady (inclusion world document key scope) :=
  .get_bind fun _ => inclusionWithin_steady hbuiltins _ key scope

theorem call_steady (hbuiltins : world.builtins.Steady) {name : String} {builtin : Builtin}
    (hget : world.builtins.get? name = some builtin) (args : List Value) :
    Steady (builtin.run ⟨document, exported world, inclusion world document⟩ args) :=
  hbuiltins name builtin hget _ args exported_steady (inclusion_steady hbuiltins)

end Evaluation
end PageTemplate
