import PageTemplate.Proofs.Scopes

/-!
Steps on record. The record of a step says which bindings it makes in the scope of its session,
according to the session that it begins with. A step is on record if it changes nothing else, and if
neither its bindings nor its outcome depend on exports that it cannot see.
-/

namespace PageTemplate

abbrev Binding := List String × Value

def Context.bindAll (scope : Context) (bindings : List Binding) : Context :=
  bindings.foldl (fun scope binding => scope.insert binding.1 binding.2) scope

theorem Context.bindAll_append (scope : Context) (first second : List Binding) :
    scope.bindAll (first ++ second) = (scope.bindAll first).bindAll second :=
  List.foldl_append

namespace ExportStore

/-- The store with these bindings made in order in the scope of a file. -/
def bindAll (store : ExportStore) (file : Path) (bindings : List Binding) : ExportStore :=
  bindings.foldl (fun store binding => store.insert file binding.1 binding.2) store

theorem bindAll_append (store : ExportStore) (file : Path) (first second : List Binding) :
    store.bindAll file (first ++ second) = (store.bindAll file first).bindAll file second :=
  List.foldl_append

def exported? (store : ExportStore) (file : Path) : Option Context :=
  store.files.lookup file.components

theorem get_eq (store : ExportStore) (file : Path) :
    store.get file = (store.exported? file).getD .empty := rfl

/-- Bindings under one file come to one change of its scope. -/
theorem files_bindAll {bindings : List Binding} (h : bindings ≠ []) (store : ExportStore)
    (file : Path) : (store.bindAll file bindings).files =
      Keyed.update file.components (fun scope => (scope.getD .empty).bindAll bindings)
        store.files := by
  induction bindings generalizing store with
  | nil => exact absurd rfl h
  | cons binding rest ih =>
    cases rest with
    | nil => rfl
    | cons next rest =>
      change ((store.insert file binding.1 binding.2).bindAll file (next :: rest)).files = _
      rw [ih (List.cons_ne_nil _ _), insert, Keyed.update_update]
      rfl

/-- The first binding of a file opens its scope, and all go into it in order. -/
theorem exported?_bindAll {bindings : List Binding} (h : bindings ≠ []) (store : ExportStore)
    (file : Path) : (store.bindAll file bindings).exported? file =
      some (((store.exported? file).getD .empty).bindAll bindings) := by
  rw [exported?, files_bindAll h, Keyed.lookup_update, if_pos rfl]
  rfl

theorem get_bindAll (store : ExportStore) (file : Path) (bindings : List Binding) :
    (store.bindAll file bindings).get file = (store.get file).bindAll bindings := by
  cases bindings with
  | nil => rfl
  | cons binding rest =>
    rw [get_eq, exported?_bindAll (List.cons_ne_nil _ _)]
    rfl

/-- The exports of other files stay. -/
theorem exported?_bindAll_of_ne {file other : Path} (h : other.components ≠ file.components)
    (store : ExportStore) (bindings : List Binding) :
    (store.bindAll file bindings).exported? other = store.exported? other := by
  cases bindings with
  | nil => rfl
  | cons binding rest =>
    rw [exported?, files_bindAll (List.cons_ne_nil _ _), Keyed.lookup_update, if_neg h]
    rfl

end ExportStore

namespace Session

/-- The session after bindings in its scope, which are exported if the scope is the file's own. -/
def bindAll (session : Session) (file : Path) (bindings : List Binding) : Session :=
  { session with
    context := session.context.bindAll bindings
    exports :=
      if session.exporting then session.exports.bindAll file bindings else session.exports }

theorem bindAll_nil (session : Session) (file : Path) : session.bindAll file [] = session := by
  unfold bindAll
  split <;> rfl

theorem bindAll_append (session : Session) (file : Path) (first second : List Binding) :
    session.bindAll file (first ++ second) = (session.bindAll file first).bindAll file second := by
  unfold bindAll
  rw [Context.bindAll_append]
  dsimp only
  split
  · rw [ExportStore.bindAll_append]
  · rfl

theorem bindAll_waited (session : Session) (file : Path) (bindings : List Binding)
    (checks : Nat) :
    (session.waited checks).bindAll file bindings = (session.bindAll file bindings).waited checks :=
  rfl

end Session

abbrev Eval.Record := Session → List Binding

namespace Eval.Record

variable {α : Type}

def none : Record := fun _ => []

def andThen (first : Record) (step : Eval α) (next : α → Record) : Record :=
  fun session => first session ++ match step.run session with
    | (.ok a, after) => next a after
    | (.error _, _) => []

theorem andThen_none (first : Record) (step : Eval α) :
    first.andThen step (fun _ => none) = first := by
  funext session
  unfold andThen
  rcases step.run session with ⟨_ | a, after⟩ <;> exact List.append_nil _

theorem none_andThen_pure (a : α) (next : α → Record) : none.andThen (pure a) next = next a := rfl

theorem none_andThen_throw (e : EvalError) (next : α → Record) :
    none.andThen (throw e) next = none := rfl

end Eval.Record

/-- A relation between stores that are alike as far as a document can see that exports under a file:
they agree on whatever is listed, and go on to do so when the file exports something. -/
structure World.Hides (world : World) (file : Path) (alike : ExportStore → ExportStore → Prop) :
    Prop where
  listed : ∀ {a b : ExportStore}, alike a b → ∀ {path : String} {files : List Path},
    world.listing path = .ok files → ∀ other ∈ files, a.get other = b.get other
  insert : ∀ {a b : ExportStore}, alike a b → ∀ (name : List String) (value : Value),
    alike (a.insert file name value) (b.insert file name value)

/-- Stores that are alike stay alike whatever the file exports. -/
theorem World.Hides.bindAll {world : World} {file : Path} {alike : ExportStore → ExportStore → Prop}
    (h : world.Hides file alike) {a b : ExportStore} (hab : alike a b) (bindings : List Binding) :
    alike (a.bindAll file bindings) (b.bindAll file bindings) := by
  induction bindings generalizing a b with
  | nil => exact hab
  | cons binding rest ih => exact ih (h.insert hab binding.1 binding.2)

/-- Identical stores are alike in the eyes of any document. -/
theorem World.hides_eq (world : World) (file : Path) : world.Hides file Eq where
  listed hab _ _ _ _ _ := congrArg (ExportStore.get · _) hab
  insert hab _ _ := congrArg (ExportStore.insert · file _ _) hab

/-- A step that makes the bindings on its record and does nothing else but ask whether to go on,
where stores that are alike make no difference. -/
structure Eval.Recorded {α : Type} (alike : ExportStore → ExportStore → Prop) (file : Path)
    (record : Eval.Record) (step : Eval α) : Prop where
  same : ∀ (session : Session) (exports : ExportStore), alike session.exports exports →
    record { session with exports := exports } = record session ∧
      (step.run { session with exports := exports }).1 = (step.run session).1 ∧
      (step.run { session with exports := exports }).2.patience = (step.run session).2.patience
  after : ∀ session : Session, ∃ checks,
    (step.run session).2 = (session.bindAll file (record session)).waited checks

namespace Eval.Recorded

variable {world : World} {file : Path} {alike : ExportStore → ExportStore → Prop} {α β : Type}
  {record : Record}

/-- The scope that a step leaves has the bindings on record, and no others. -/
theorem context_eq {step : Eval α} (h : Recorded alike file record step) (session : Session) :
    (step.run session).2.context = session.context.bindAll (record session) := by
  obtain ⟨checks, hafter⟩ := h.after session
  rw [hafter]
  rfl

/-- What a step adds to the exports is on record, too. -/
theorem exports_eq {step : Eval α} (h : Recorded alike file record step) (session : Session) :
    (step.run session).2.exports = (session.bindAll file (record session)).exports := by
  obtain ⟨checks, hafter⟩ := h.after session
  rw [hafter]
  rfl

theorem tidy {step : Eval α} (h : Recorded alike file record step) : Tidy step := by
  intro session
  obtain ⟨checks, hafter⟩ := h.after session
  rw [hafter]
  exact ⟨rfl, rfl, ⟨checks, rfl⟩, fun hoff => if_neg (ne_true_of_eq_false hoff)⟩

/-- With nothing on record a step can only have asked whether to go on. -/
theorem steady {step : Eval α} (h : Recorded alike file .none step) : Steady step := by
  intro session
  obtain ⟨checks, hafter⟩ := h.after session
  rw [Record.none, Session.bindAll_nil] at hafter
  exact ⟨checks, hafter⟩

/-- The exports of other files stay. -/
theorem exported?_of_ne {step : Eval α} (h : Recorded alike file record step) {other : Path}
    (hother : other.components ≠ file.components) (session : Session) :
    (step.run session).2.exports.exported? other = session.exports.exported? other := by
  rw [h.exports_eq, Session.bindAll]
  dsimp only
  split
  · exact ExportStore.exported?_bindAll_of_ne hother session.exports _
  · rfl

/-- A step that finds the same whatever is exported, and then only asks whether to go on. -/
theorem of_steady {step : Eval α} (hsteady : Steady step)
    (hblind : ∀ session exports, alike session.exports exports →
      (step.run { session with exports := exports }).1 = (step.run session).1 ∧
        (step.run { session with exports := exports }).2.patience =
          (step.run session).2.patience) :
    Recorded alike file .none step := by
  refine ⟨fun session exports halike => ⟨rfl, hblind session exports halike⟩, fun session => ?_⟩
  obtain ⟨checks, hafter⟩ := hsteady session
  rw [Record.none, Session.bindAll_nil]
  exact ⟨checks, hafter⟩

theorem pure (a : α) : Recorded alike file .none (Pure.pure a : Eval α) :=
  .of_steady (.pure a) fun _ _ _ => ⟨rfl, rfl⟩

theorem throw (e : EvalError) : Recorded alike file .none (throw e : Eval α) :=
  .of_steady (.throw e) fun _ _ _ => ⟨rfl, rfl⟩

theorem ofExcept (result : Except EvalError α) :
    Recorded alike file .none (Eval.ofExcept result) := by
  cases result with
  | ok a => exact pure a
  | error e => exact throw e

/-- Where stores were alike before a step, they are so after it, and nothing else makes the sessions
differ. -/
theorem same_after (hhides : world.Hides file alike) {step : Eval α}
    (h : Recorded alike file record step) (session : Session) {exports : ExportStore}
    (halike : alike session.exports exports) : ∃ exports',
      alike (step.run session).2.exports exports' ∧
        (step.run { session with exports := exports }).2 =
          { (step.run session).2 with exports := exports' } := by
  obtain ⟨hrecord, -, hpatience⟩ := h.same session exports halike
  obtain ⟨checks, hafter⟩ := h.after session
  obtain ⟨checks', hafter'⟩ := h.after { session with exports := exports }
  rw [hrecord] at hafter'
  -- both runs bind the same and have been asked as often
  rw [hafter, hafter'] at hpatience
  rw [hafter, hafter']
  let bindings := record session
  refine ⟨(Session.bindAll { session with exports := exports } file bindings).exports, ?_, ?_⟩
  · change alike (session.bindAll file bindings).exports _
    unfold Session.bindAll
    dsimp only
    split
    · exact hhides.bindAll halike _
    · exact halike
  · exact congrArg (fun patience =>
      { Session.bindAll { session with exports := exports } file bindings with
        patience := patience }) hpatience

/-- The second part makes its bindings in the session that the first part leaves, which is on record
itself. -/
theorem bind (hhides : world.Hides file alike) {step : Eval α} {next : α → Eval β}
    {records : α → Record} (hstep : Recorded alike file record step)
    (hnext : ∀ a, Recorded alike file (records a) (next a)) :
    Recorded alike file (record.andThen step records) (step >>= next) := by
  refine ⟨fun session exports halike => ?_, fun session => ?_⟩
  · obtain ⟨hrecord, hresult, hpatience⟩ := hstep.same session exports halike
    -- the second part begins with stores that are alike again
    obtain ⟨exports', hbetween, hafter⟩ := hstep.same_after hhides session halike
    rw [run_bind, run_bind, Record.andThen, Record.andThen, hrecord]
    rcases hrun : step.run session with ⟨result, after⟩
    rcases hrun' : step.run { session with exports := exports } with ⟨result', after'⟩
    rw [hrun, hrun'] at hresult hpatience hafter
    rw [hrun] at hbetween
    obtain rfl : result' = result := hresult
    obtain rfl : after' = { after with exports := exports' } := hafter
    cases result' with
    | error e => exact ⟨rfl, rfl, hpatience⟩
    | ok a =>
      obtain ⟨hrecord', hlater⟩ := (hnext a).same after exports' hbetween
      exact ⟨congrArg (record session ++ ·) hrecord', hlater⟩
  · obtain ⟨first, hfirst⟩ := hstep.after session
    rw [run_bind, Record.andThen]
    rcases hrun : step.run session with ⟨result, after⟩
    rw [hrun] at hfirst
    obtain rfl : after = (session.bindAll file (record session)).waited first := hfirst
    cases result with
    | error e =>
      refine ⟨first, ?_⟩
      dsimp only
      rw [List.append_nil]
    | ok a =>
      obtain ⟨second, hsecond⟩ := (hnext a).after _
      refine ⟨first + second, ?_⟩
      dsimp only
      rw [hsecond, Session.bindAll_waited, Session.bindAll_append, Session.waited_waited]

/-- What is done after a step without any further bindings. -/
theorem finish (hhides : world.Hides file alike) {step : Eval α} {next : α → Eval β}
    (hstep : Recorded alike file record step)
    (hnext : ∀ a, Recorded alike file .none (next a)) :
    Recorded alike file record (step >>= next) :=
  record.andThen_none step ▸ hstep.bind hhides hnext

/-- What a step finds in its session, if that has nothing to do with exports. -/
theorem get_bind {next : Session → Eval α}
    (hnext : ∀ session, Recorded alike file record (next session))
    (hblind : ∀ session exports, next { session with exports := exports } = next session) :
    Recorded alike file record ((get : Eval Session) >>= next) := by
  refine ⟨fun session exports halike => ?_, fun session => ?_⟩
  · rw [run_get_bind, run_get_bind, hblind]
    exact (hnext session).same session exports halike
  · rw [run_get_bind]
    exact (hnext session).after session

theorem checkInterrupt : Recorded alike file .none Eval.checkInterrupt := by
  refine .of_steady .checkInterrupt fun session exports _ => ?_
  rw [run_checkInterrupt, run_checkInterrupt]
  exact ⟨rfl, rfl⟩

theorem assign (document : Document) (target : List String) (value : Value) :
    Recorded alike document.path (fun _ => [(target, value)])
      (Eval.assign document target value) :=
  ⟨fun _ _ _ => ⟨rfl, rfl, rfl⟩, fun _ => ⟨0, Session.waited_zero.symm⟩⟩

/-- A scope of its own keeps the bindings made in it from the session. -/
theorem inScope {step : Eval α} (h : Recorded alike file record step) (scope : Context) :
    Recorded alike file .none (Eval.inScope scope step) := by
  refine .of_steady (.inScope h.tidy scope) fun session exports halike => ?_
  rw [run_inScope, run_inScope]
  exact (h.same { session with context := scope, exporting := false } exports halike).2

theorem deeper {step : Eval α} (h : Recorded alike file .none step) :
    Recorded alike file .none (Eval.deeper step) := by
  refine .of_steady (.deeper h.steady) fun session exports halike => ?_
  rw [run_deeper, run_deeper]
  exact (h.same { session with depth := session.depth + 1 } exports halike).2

theorem needValue (hhides : world.Hides file alike) {step : Eval (Option Value)}
    (h : Recorded alike file record step) (pos : Position) :
    Recorded alike file record (Evaluation.needValue pos step) := by
  refine h.finish hhides fun result => ?_
  cases result with
  | none => exact throw _
  | some value => exact pure value

theorem toText (hhides : world.Hides file alike) {step : Eval (Option Value)}
    (h : Recorded alike file record step) :
    Recorded alike file record (Evaluation.toText step) := by
  refine h.finish hhides fun result => ?_
  cases result <;> exact pure _

theorem needBool (hhides : world.Hides file alike) {step : Eval (Option Value)}
    (h : Recorded alike file record step) (pos : Position) :
    Recorded alike file record (Evaluation.needBool pos step) := by
  refine (h.needValue hhides pos).finish hhides fun value => ?_
  split
  · exact pure _
  · exact throw _

end Eval.Recorded
end PageTemplate
