import Mathlib
import PageTemplate.Proofs.Batches
import PageTemplate.Proofs.DottedNames
import PageTemplate.Proofs.LocalBindings

namespace PageTemplate

namespace Keyed

variable {κ α : Type} [DecidableEq κ]

def without (key : κ) (entries : List (κ × α)) : List (κ × α) :=
  entries.filter fun entry => entry.1 ≠ key

theorem without_cons_self (key : κ) (a : α) (rest : List (κ × α)) :
    without key ((key, a) :: rest) = without key rest :=
  List.filter_cons_of_neg (by simp)

theorem without_cons_of_ne {key other : κ} (h : other ≠ key) (a : α) (rest : List (κ × α)) :
    without key ((other, a) :: rest) = (other, a) :: without key rest :=
  List.filter_cons_of_pos (by simp [h])

/-- What is done under a key makes no difference to the other entries. -/
theorem without_update_self (key : κ) (change : Option α → α) (entries : List (κ × α)) :
    without key (update key change entries) = without key entries := by
  induction entries with
  | nil => exact without_cons_self key _ []
  | cons entry rest ih =>
    obtain ⟨j, a⟩ := entry
    by_cases hj : j = key
    · rw [update, if_pos hj, hj, without_cons_self, without_cons_self]
    · rw [update, if_neg hj, without_cons_of_ne hj, without_cons_of_ne hj, ih]

/-- A change under another key can be made before or after the entries under a key are left out. -/
theorem without_update_of_ne {key other : κ} (h : other ≠ key) (change : Option α → α)
    (entries : List (κ × α)) :
    without key (update other change entries) = update other change (without key entries) := by
  induction entries with
  | nil => exact without_cons_of_ne h _ []
  | cons entry rest ih =>
    obtain ⟨j, a⟩ := entry
    by_cases hother : j = other
    · subst hother
      rw [update, if_pos rfl, without_cons_of_ne h, without_cons_of_ne h, update, if_pos rfl]
    · by_cases hkey : j = key
      · subst hkey
        rw [update, if_neg hother, without_cons_self, without_cons_self, ih]
      · rw [update, if_neg hother, without_cons_of_ne hkey, without_cons_of_ne hkey, update,
          if_neg hother, ih]

theorem lookup_without [BEq κ] [LawfulBEq κ] {key other : κ} (h : other ≠ key)
    (entries : List (κ × α)) : (without key entries).lookup other = entries.lookup other := by
  induction entries with
  | nil => rfl
  | cons entry rest ih =>
    obtain ⟨j, a⟩ := entry
    by_cases hj : j = key
    · subst hj
      rw [without_cons_self, lookup_cons_eq_if, if_neg h, ih]
    · rw [without_cons_of_ne hj, lookup_cons_eq_if, lookup_cons_eq_if, ih]

end Keyed

namespace Context

/-- The same entries in the same order, but for what one name stands for. -/
def AgreesOff (name : String) (a b : Context) : Prop :=
  Keyed.without name a.entries = Keyed.without name b.entries

variable {name : String} {a b : Context}

theorem AgreesOff.get? (h : a.AgreesOff name b) {other : String} (hother : other ≠ name) :
    a.get? other = b.get? other := by
  rw [Context.get?, Context.get?, ← Keyed.lookup_without hother a.entries,
    ← Keyed.lookup_without hother b.entries, h]

/-- Only what is under the name can tell the scopes apart. -/
theorem AgreesOff.at? (h : a.AgreesOff name b) {parts : List String}
    (hparts : parts.head? ≠ some name) : a.at? parts = b.at? parts := by
  rcases parts with _ | ⟨first, _ | ⟨next, rest⟩⟩
  · rfl
  · exact h.get? fun heq => hparts (congrArg some heq)
  · rw [at?_cons_cons, at?_cons_cons, h.get? fun heq => hparts (congrArg some heq)]

theorem AgreesOff.update (h : a.AgreesOff name b) (other : String)
    (change : Option Value → Value) :
    AgreesOff name ⟨Keyed.update other change a.entries⟩ ⟨Keyed.update other change b.entries⟩ := by
  unfold AgreesOff
  -- under the name itself a change is not seen, under another it is made in both scopes
  by_cases hother : other = name
  · rw [hother, Keyed.without_update_self, Keyed.without_update_self, h]
  · rw [Keyed.without_update_of_ne hother, Keyed.without_update_of_ne hother, h]

theorem AgreesOff.insert (h : a.AgreesOff name b) (target : List String) (value : Value) :
    (a.insert target value).AgreesOff name (b.insert target value) := by
  rcases target with _ | ⟨first, _ | ⟨next, rest⟩⟩
  · exact h
  · exact h.update first fun _ => value
  · rw [Context.insert, Context.insert]
    · exact h.update first fun old => .container ((nested old).insert (next :: rest) value)
    · exact List.cons_ne_nil next rest
    · exact List.cons_ne_nil next rest

theorem AgreesOff.merge (h : a.AgreesOff name b) (other : Context) :
    (a.merge other).AgreesOff name (b.merge other) := by
  unfold Context.merge setAll
  induction other.entries generalizing a b with
  | nil => exact h
  | cons binding rest ih => exact ih (h.update binding.1 fun _ => binding.2)

theorem agreesOff_set (scope : Context) (name : String) (value : Value) :
    scope.AgreesOff name (scope.set name value) :=
  (Keyed.without_update_self name _ scope.entries).symm

end Context

structure Session.AgreesOff (name : String) (a b : Session) : Prop where
  context : a.context.AgreesOff name b.context
  exporting : a.exporting = b.exporting
  depth : a.depth = b.depth
  exports : a.exports = b.exports
  patience : a.patience = b.patience

theorem Session.AgreesOff.waited {name : String} {a b : Session} (h : a.AgreesOff name b)
    (checks : Nat) : (a.waited checks).AgreesOff name (b.waited checks) :=
  ⟨h.context, h.exporting, h.depth, h.exports, congrArg (Option.map (· - checks)) h.patience⟩

abbrev Eval.AlikeOff {α : Type} (name : String) : Eval α → Eval α → Prop :=
  Respects (Session.AgreesOff name)

namespace Eval.AlikeOff

variable {α : Type} {name : String}

/-- A binding goes to the same place in both scopes, and what is exported is the binding alone. -/
theorem assign (document : Document) (target : List String) (value : Value) :
    AlikeOff name (Eval.assign document target value) (Eval.assign document target value) := by
  intro s t h
  refine ⟨rfl, h.context.insert target value, h.exporting, h.depth, ?_, h.patience⟩
  change (if s.exporting then s.exports.insert document.path target value else s.exports) =
    if t.exporting then t.exports.insert document.path target value else t.exports
  rw [h.exporting, h.exports]

theorem inScope {scope scope' : Context} {step step' : Eval α}
    (hscope : scope.AgreesOff name scope') (hstep : AlikeOff name step step') :
    AlikeOff name (Eval.inScope scope step) (Eval.inScope scope' step') := by
  intro s t h
  obtain ⟨hresult, hafter⟩ := hstep { s with context := scope, exporting := false }
    { t with context := scope', exporting := false }
    ⟨hscope, rfl, h.depth, h.exports, h.patience⟩
  rw [run_inScope, run_inScope]
  exact ⟨hresult, h.context, h.exporting, hafter.depth, hafter.exports, hafter.patience⟩

theorem deeper {step step' : Eval α} (hstep : AlikeOff name step step') :
    AlikeOff name (Eval.deeper step) (Eval.deeper step') := by
  intro s t h
  obtain ⟨hresult, hafter⟩ := hstep { s with depth := s.depth + 1 } { t with depth := t.depth + 1 }
    ⟨h.context, h.exporting, congrArg (· + 1) h.depth, h.exports, h.patience⟩
  rw [run_deeper, run_deeper]
  exact ⟨hresult, hafter.context, hafter.exporting, congrArg (· - 1) hafter.depth,
    hafter.exports, hafter.patience⟩

end Eval.AlikeOff

/-- No variable in a node or further inside is found by way of this name. -/
def Node.LeavesOut (name : String) : Node → Prop := NamesOnly fun parts => parts.head? ≠ some name

def World.LeavesOut (world : World) (name : String) : Prop :=
  ∀ key nodes, world.templates.get? key = some nodes → ∀ node ∈ nodes, node.LeavesOut name

namespace Evaluation

open Eval (AlikeOff)

variable {world : World} {document : Document} {includer : Includer} {name : String}

theorem exported_alikeOff (path : String) :
    AlikeOff name (exported world path) (exported world path) := by
  unfold exported
  split
  · exact .throw _
  · refine .get_bind fun s t h => ?_
    rw [h.exports]
    exact .pure _

theorem host_relates_alikeOff (hincluder : ∀ key {scope scope' : Context},
      scope.AgreesOff name scope' → AlikeOff name (includer key scope) (includer key scope')) :
    Host.Relates ⟨document, exported world, includer⟩ ⟨document, exported world, includer⟩
      (Context.AgreesOff name) fun _ step step' => AlikeOff name step step' where
  document := rfl
  pure := .pure
  throw _ := .throw _
  bind := .bind
  scope hnext := .get_bind fun s t h => hnext s.context t.context h.context
  merge known h := h.merge known
  exported := exported_alikeOff
  inclusion := hincluder

theorem relates_alikeOff (hprelude : world.builtins = .prelude)
    (hincluder : ∀ key {scope scope' : Context},
      scope.AgreesOff name scope' → AlikeOff name (includer key scope) (includer key scope')) :
    Relates world world document includer includer (fun parts => parts.head? ≠ some name)
      fun _ step step' => AlikeOff name step step' where
  builtins := rfl
  pure := .pure
  throw _ := .throw _
  bind := .bind
  checkInterrupt := .checkInterrupt fun s t h => ⟨h.patience, h.waited 1⟩
  lookup parts hparts := .get_bind fun s t h => by
    rw [h.context.at? hparts]
    exact .pure _
  assign := .assign document
  iteration var item _ _ hbody :=
    .get_bind fun s t h => AlikeOff.inScope (h.context.merge _) hbody
  exported := exported_alikeOff
  call hget args := by
    rw [hprelude] at hget
    exact (host_relates_alikeOff hincluder).prelude hget args

/-- Templates are evaluated in the scopes that they are given, and these need only be alike. -/
theorem inclusionWithin_alikeOff (hprelude : world.builtins = .prelude)
    (htemplates : world.LeavesOut name) (remaining : Nat) (key : String) {scope scope' : Context}
    (hscope : scope.AgreesOff name scope') :
    AlikeOff name (inclusionWithin world document remaining key scope)
      (inclusionWithin world document remaining key scope') := by
  induction remaining generalizing key scope scope' with
  | zero =>
    rw [inclusionWithin, inclusionWithin]
    refine .get_bind fun s t h => ?_
    rw [h.depth]
    exact .throw _
  | succ remaining ih =>
    rw [inclusionWithin, inclusionWithin]
    split
    · exact .throw _
    · next nodes hnodes =>
      have hrelates := @relates_alikeOff world document _ name hprelude ih
      exact AlikeOff.deeper (AlikeOff.inScope hscope (hrelates.renderNodes fun node hnode =>
        hrelates.evalNode (htemplates key nodes hnodes node hnode)))

theorem inclusion_alikeOff (hprelude : world.builtins = .prelude)
    (htemplates : world.LeavesOut name) (key : String) {scope scope' : Context}
    (hscope : scope.AgreesOff name scope') :
    AlikeOff name (inclusion world document key scope) (inclusion world document key scope') := by
  refine .get_bind fun s t h => ?_
  rw [h.depth]
  exact inclusionWithin_alikeOff hprelude htemplates _ key hscope

theorem renderEach_alikeOff (hprelude : world.builtins = .prelude)
    (htemplates : world.LeavesOut name) {nodes : List Node}
    (hnodes : ∀ node ∈ nodes, node.LeavesOut name) :
    AlikeOff name (renderEach world document nodes) (renderEach world document nodes) := by
  have hrelates := @relates_alikeOff world document (inclusion world document) name hprelude
    (inclusion_alikeOff hprelude htemplates)
  unfold renderEach
  induction nodes with
  | nil => exact .pure []
  | cons node rest ih =>
    obtain ⟨hnode, hrest⟩ := List.forall_mem_cons.1 hnodes
    rw [List.mapM_cons]
    refine .bind (hrelates.toText (hrelates.evalNode hnode)) fun text => ?_
    exact .bind (ih hrest) fun _ => .pure _

end Evaluation

open Evaluation in
/-- What a document comes to has to do with the names in it only. If no variable in it or in a
template begins with a name, then the document has the same texts, or fails in the same way, and
makes the same exports whatever that name stands for. The scope that it leaves is the same but for
the name. All this is so for the text of the whole document as it is for the texts of its nodes.
Loops and functions may bind the name, as long as nobody asks for it. -/
theorem output_depends_on_names_read {world : World} (hprelude : world.builtins = .prelude)
    (document : Document) {name : String} (htemplates : world.LeavesOut name) {nodes : List Node}
    (hnodes : ∀ node ∈ nodes, node.LeavesOut name) (session : Session) (value : Value) :
    let bound := { session with context := session.context.set name value }
    let outcome := (renderEach world document nodes).run session
    let outcome' := (renderEach world document nodes).run bound
    let page := (renderAll world document nodes).run session
    let page' := (renderAll world document nodes).run bound
    outcome'.1 = outcome.1 ∧ outcome'.2.exports = outcome.2.exports ∧
      outcome.2.context.AgreesOff name outcome'.2.context ∧
      page'.1 = page.1 ∧ page.2 = outcome.2 ∧ page'.2 = outcome'.2 := by
  intro bound outcome outcome' page page'
  have hsessions : Session.AgreesOff name session bound :=
    ⟨session.context.agreesOff_set name value, rfl, rfl, rfl, rfl⟩
  obtain ⟨hresult, hafter⟩ :=
    renderEach_alikeOff hprelude htemplates hnodes session bound hsessions
  have hpage : page = (outcome.1.map String.join, outcome.2) := run_renderAll nodes session
  have hpage' : page' = (outcome'.1.map String.join, outcome'.2) := run_renderAll nodes bound
  rw [hpage, hpage']
  exact ⟨hresult.symm, hafter.exports.symm, hafter.context,
    congrArg (Except.map String.join) hresult.symm, rfl, rfl⟩

/-- A library of one template leaves out what its nodes leave out. -/
theorem World.leavesOut_of_one {world : World} {key name : String} {nodes : List Node}
    (h : world.templates = TemplateLibrary.empty.append key nodes)
    (hnodes : ∀ node ∈ nodes, node.LeavesOut name) : world.LeavesOut name := by
  intro key' nodes' hget
  rw [h, TemplateLibrary.get?, TemplateLibrary.append, Keyed.lookup_update] at hget
  split at hget
  · cases hget
    exact hnodes
  · cases hget

set_option maxRecDepth 2048 in
open Evaluation in
/-- Neither the loop nor the template that it includes asks for `y`. -/
theorem output_depends_on_names_read_in_loop :
    let world : World :=
      { templates := TemplateLibrary.empty.append "t" dividingTemplate
        listing := fun _ => .ok [.ofText "a", .ofText "b"] }
    let document : Document := { path := .ofText "p" }
    let session : Session :=
      { context := .ofList [("y", .str "mine"), ("list", .container (.ofList [("k", .int 7)]))]
        exports := (ExportStore.empty.insert (.ofText "a") ["n"] (.int 2)).insert (.ofText "b")
          ["n"] (.int 5) }
    let loop : Node := ⟨.forLoop, [.leaf (.identifier "i") ⟨1, 8⟩,
      .leaf (.varName ["list"]) ⟨1, 13⟩, includingBody], ⟨1, 1⟩⟩
    let outcome := (renderEach world document [loop]).run
      { session with context := session.context.set "y" (.int 9) }
    outcome.1 = .ok ["5\n2"] ∧ outcome.2.exports = session.exports ∧
      ((renderAll world document [loop]).run
        { session with context := session.context.set "y" (.int 9) }).1 =
          ((renderAll world document [loop]).run session).1 := by
  intro world document session loop outcome
  have htemplate : ∀ node ∈ dividingTemplate, node.LeavesOut "y" := by
    simp [dividingTemplate, Node.LeavesOut, Node.NamesOnly, Node.throughout_iff, Node.leaf]
  have hloop : ∀ node ∈ [loop], node.LeavesOut "y" := by
    simp [loop, includingBody, Node.LeavesOut, Node.NamesOnly, Node.throughout_iff, Node.leaf]
  have htexts : ((renderEach world document [loop]).run session).1 = .ok ["5\n2"] := by
    cbv
  have hexports : ((renderEach world document [loop]).run session).2.exports = session.exports := by
    cbv
  obtain ⟨hresult, hafter, -, hpage, -⟩ :=
    output_depends_on_names_read (rfl : world.builtins = .prelude) document
      (World.leavesOut_of_one rfl htemplate) hloop session (.int 9)
  exact ⟨hresult.trans htexts, hafter.trans hexports, hpage⟩

end PageTemplate
