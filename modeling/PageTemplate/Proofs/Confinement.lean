import PageTemplate.Proofs.Steps
import PageTemplate.Rendering

namespace PageTemplate

def ExportStore.AgreesOff (file : Path) (a b : ExportStore) : Prop :=
  ∀ other : Path, other.components ≠ file.components → a.get other = b.get other

/-- An export of a file is for no other file. -/
theorem ExportStore.agreesOff_insert (store : ExportStore) (file : Path) (name : List String)
    (value : Value) : store.AgreesOff file (store.insert file name value) := by
  intro other hother
  rw [get, get, insert, Keyed.lookup_update, if_neg hother]

structure Session.Alike (file : Path) (a b : Session) : Prop where
  context : a.context = b.context
  exporting : a.exporting = b.exporting
  depth : a.depth = b.depth
  patience : a.patience = b.patience
  exports : a.exports.AgreesOff file b.exports

theorem Session.Alike.waited {file : Path} {a b : Session} (h : a.Alike file b) (checks : Nat) :
    (a.waited checks).Alike file (b.waited checks) :=
  ⟨h.context, h.exporting, h.depth, congrArg (Option.map (· - checks)) h.patience, h.exports⟩

/-- A step of evaluation that has nothing to do with the exports of one file, but that it may add to
them. -/
structure Eval.Confined {α : Type} (file : Path) (step : Eval α) : Prop where
  same : ∀ a b, Session.Alike file a b →
    (step.run a).1 = (step.run b).1 ∧ Session.Alike file (step.run a).2 (step.run b).2
  keeps : ∀ a, a.exports.AgreesOff file (step.run a).2.exports ∧
    (a.patience = none → (step.run a).2.patience = none)
  goesOn : ∀ a, a.patience = none → (step.run a).1 ≠ .error .interrupted

namespace Eval

variable {α β : Type} {file : Path}

namespace Confined

theorem pure (a : α) : Confined file (Pure.pure a : Eval α) := by
  refine ⟨fun s t h => ⟨rfl, h⟩, fun s => ⟨fun _ _ => rfl, id⟩, fun s _ => ?_⟩
  rw [run_pure]
  intro h
  cases h

theorem throw {e : EvalError} (he : e ≠ .interrupted) : Confined file (throw e : Eval α) := by
  refine ⟨fun s t h => ⟨rfl, h⟩, fun s => ⟨fun _ _ => rfl, id⟩, fun s _ => ?_⟩
  rw [run_throw]
  intro h
  cases h
  exact he rfl

/-- A step and what comes after it are confined if both are. That it goes on is seen from the
session in between. -/
theorem bind {step : Eval α} {next : α → Eval β} (hstep : Confined file step)
    (hnext : ∀ a, Confined file (next a)) : Confined file (step >>= next) := by
  refine ⟨Respects.bind hstep.same fun a => (hnext a).same, fun s => ?_, fun s hs => ?_⟩
  · obtain ⟨hexports, hpatience⟩ := hstep.keeps s
    rw [run_bind]
    rcases hrun : step.run s with ⟨result, after⟩
    rw [hrun] at hexports hpatience
    cases result with
    | error e => exact ⟨hexports, hpatience⟩
    | ok a =>
      obtain ⟨hexports', hpatience'⟩ := (hnext a).keeps after
      refine ⟨fun other hother => ?_, fun hs => hpatience' (hpatience hs)⟩
      exact (hexports other hother).trans (hexports' other hother)
  · have hpatience := (hstep.keeps s).2 hs
    have hfirst := hstep.goesOn s hs
    rw [run_bind]
    rcases hrun : step.run s with ⟨result, after⟩
    rw [hrun] at hpatience hfirst
    cases result with
    | error e =>
      intro herror
      cases herror
      exact hfirst rfl
    | ok a => exact (hnext a).goesOn after hpatience

/-- What a step finds in the session may be anything that sessions that are alike have in common. -/
theorem get_bind {read : Session → β} {next : β → Eval α}
    (hread : ∀ s t, Session.Alike file s t → read s = read t)
    (hnext : ∀ b, Confined file (next b)) :
    Confined file ((get : Eval Session) >>= fun session => next (read session)) := by
  refine ⟨Respects.get_bind fun s t h => ?_, fun s => ?_, fun s hs => ?_⟩
  · rw [hread s t h]
    exact (hnext _).same
  · rw [run_get_bind]
    exact (hnext _).keeps s
  · rw [run_get_bind]
    exact (hnext _).goesOn s hs

theorem checkInterrupt : Confined file Eval.checkInterrupt := by
  refine ⟨Respects.checkInterrupt fun s t h => ⟨h.patience, h.waited 1⟩, fun s => ?_,
    fun s hs => ?_⟩
  · rw [run_checkInterrupt]
    exact ⟨fun _ _ => rfl, congrArg (Option.map _)⟩
  · rw [run_checkInterrupt_of_none hs]
    intro h
    cases h

theorem assign {document : Document} (target : List String) (value : Value) :
    Confined document.path (Eval.assign document target value) := by
  refine ⟨fun s t h => ⟨rfl, ?_⟩, fun s => ⟨?_, id⟩, fun s _ h => by cases h⟩
  · have hexports := h.exports
    refine ⟨congrArg (·.insert target value) h.context, h.exporting, h.depth, h.patience, ?_⟩
    intro other hother
    have hs := s.exports.agreesOff_insert document.path target value other hother
    have ht := t.exports.agreesOff_insert document.path target value other hother
    change (if s.exporting then _ else _ : ExportStore).get other =
      (if t.exporting then _ else _ : ExportStore).get other
    rw [← h.exporting]
    split
    · rw [← hs, ← ht]
      exact hexports other hother
    · exact hexports other hother
  · change s.exports.AgreesOff document.path (if s.exporting then _ else _)
    split
    · exact s.exports.agreesOff_insert document.path target value
    · exact fun _ _ => rfl

theorem inScope {step : Eval α} (h : Confined file step) (scope : Context) :
    Confined file (Eval.inScope scope step) := by
  refine ⟨fun s t halike => ?_, fun s => ?_, fun s hs => ?_⟩
  · have hinner : Session.Alike file { s with context := scope, exporting := false }
        { t with context := scope, exporting := false } :=
      ⟨rfl, rfl, halike.depth, halike.patience, halike.exports⟩
    obtain ⟨hresult, hafter⟩ := h.same _ _ hinner
    rw [run_inScope, run_inScope]
    exact ⟨hresult, halike.context, halike.exporting, hafter.depth, hafter.patience,
      hafter.exports⟩
  · rw [run_inScope]
    exact h.keeps { s with context := scope, exporting := false }
  · rw [run_inScope]
    exact h.goesOn { s with context := scope, exporting := false } hs

theorem deeper {step : Eval α} (h : Confined file step) : Confined file (Eval.deeper step) := by
  refine ⟨fun s t halike => ?_, fun s => ?_, fun s hs => ?_⟩
  · have hinner : Session.Alike file { s with depth := s.depth + 1 }
        { t with depth := t.depth + 1 } :=
      ⟨halike.context, halike.exporting, congrArg (· + 1) halike.depth, halike.patience,
        halike.exports⟩
    obtain ⟨hresult, hafter⟩ := h.same _ _ hinner
    rw [run_deeper, run_deeper]
    exact ⟨hresult, hafter.context, hafter.exporting, congrArg (· - 1) hafter.depth,
      hafter.patience, hafter.exports⟩
  · rw [run_deeper]
    exact h.keeps { s with depth := s.depth + 1 }
  · rw [run_deeper]
    exact h.goesOn { s with depth := s.depth + 1 } hs

end Confined
end Eval

/-- Nothing is listed under a content path that is the file itself. -/
def World.Omits (world : World) (file : Path) : Prop :=
  ∀ path files, world.listing path = .ok files →
    ∀ other ∈ files, other.components ≠ file.components

def Builtin.Confined (builtin : Builtin) : Prop :=
  ∀ (host : Host) (args : List Value),
    (∀ path, Eval.Confined host.document.path (host.exported path)) →
      (∀ key scope, Eval.Confined host.document.path (host.inclusion key scope)) →
        Eval.Confined host.document.path (builtin.run host args)

def Builtins.Confined (builtins : Builtins) : Prop :=
  ∀ name builtin, builtins.get? name = some builtin → builtin.Confined

namespace Evaluation

open Eval (Confined)

variable {world : World} {document : Document} {includer : Includer} {file : Path}

/-- Listings without the file do not show what the file exports. -/
theorem exported_confined (homits : world.Omits file) (path : String) :
    Confined file (exported world path) := by
  unfold exported
  split
  · exact .throw nofun
  · next files hfiles =>
    refine @Confined.get_bind (List Context) (List Context) file
      (fun session => files.map session.exports.get) Pure.pure (fun s t h => ?_) .pure
    apply List.map_congr_left
    intro other hother
    exact h.exports other (homits path files hfiles other hother)

/-- What evaluation asks of the session does not touch the exports of files that are not listed. -/
theorem inherits_confined (homits : world.Omits document.path)
    (hbuiltins : world.builtins.Confined)
    (hincluder : ∀ key scope, Confined document.path (includer key scope)) :
    Inherits world document includer fun _ step => Confined document.path step where
  pure := .pure
  throw := .throw
  bind := .bind
  checkInterrupt := .checkInterrupt
  lookup parts := by
    refine @Confined.get_bind (Option Value) (Option Value) document.path
      (fun session => session.context.at? parts) Pure.pure (fun s t halike => ?_) .pure
    rw [halike.context]
  assign := .assign
  iteration var item body hbody := by
    refine @Confined.get_bind String Context document.path
      (fun session => session.context.merge (.ofList [(var, item)]))
      (fun scope => Eval.inScope scope body) (fun s t halike => ?_) hbody.inScope
    rw [halike.context]
  exported := exported_confined homits
  call hget args := hbuiltins _ _ hget ⟨document, exported world, includer⟩ args
    (exported_confined homits) hincluder

/-- By induction on the inclusions left: templates export nothing of their own. -/
theorem inclusionWithin_confined (homits : world.Omits document.path)
    (hbuiltins : world.builtins.Confined) (remaining : Nat) (key : String) (scope : Context) :
    Confined document.path (inclusionWithin world document remaining key scope) := by
  induction remaining generalizing key scope with
  | zero =>
    rw [inclusionWithin]
    exact @Confined.get_bind String Nat document.path Session.depth
      (fun depth => throw (.inclusionTooDeep depth key)) (fun s t halike => halike.depth)
        fun depth => .throw nofun
  | succ remaining ih =>
    rw [inclusionWithin]
    split
    · exact .throw nofun
    · next nodes _ =>
      have hnodes := (inherits_confined homits hbuiltins ih).renderNodes nodes
      exact (hnodes.inScope scope).deeper

theorem inclusion_confined (homits : world.Omits document.path)
    (hbuiltins : world.builtins.Confined) (key : String) (scope : Context) :
    Confined document.path (inclusion world document key scope) :=
  @Confined.get_bind String Nat document.path (fun session => world.maxDepth - session.depth)
    (fun remaining => inclusionWithin world document remaining key scope)
    (fun _ _ halike => congrArg (world.maxDepth - ·) halike.depth)
    fun remaining => inclusionWithin_confined homits hbuiltins remaining key scope

/-- The evaluation of a tree. -/
theorem render_confined (homits : world.Omits document.path) (hbuiltins : world.builtins.Confined)
    (node : Node) : Confined document.path (render world document node) :=
  have hinherits := inherits_confined homits hbuiltins (inclusion_confined homits hbuiltins)
  hinherits.toText (hinherits.evalNode node)

end Evaluation

theorem Host.inherits_confined {host : Host}
    (hexported : ∀ path, Eval.Confined host.document.path (host.exported path))
    (hinclusion : ∀ key scope, Eval.Confined host.document.path (host.inclusion key scope)) :
    host.Inherits fun _ step => Eval.Confined host.document.path step where
  pure := .pure
  throw := .throw
  bind := .bind
  scope {α next} hnext := @Eval.Confined.get_bind α Context host.document.path Session.context
    next (fun _ _ halike => halike.context) hnext
  exported := hexported
  inclusion := hinclusion

/-- The functions that every template can call are confined. -/
theorem Builtins.confined_prelude : Builtins.prelude.Confined :=
  fun _ _ hget _ args hexported hinclusion =>
    (Host.inherits_confined hexported hinclusion).prelude hget args

end PageTemplate
