import PageTemplate.Proofs.Records

namespace PageTemplate.Context

/-- A binding does not touch the names beside its first part. -/
theorem get?_insert_of_ne {name other : String} (h : other ≠ name) (scope : Context)
    (rest : List String) (value : Value) :
    (scope.insert (name :: rest) value).get? other = scope.get? other := by
  cases rest with
  | nil => rw [insert, set, Keyed.set, get?, Keyed.lookup_update, if_neg h, get?]
  | cons next rest =>
    rw [insert, get?, Keyed.lookup_update, if_neg h, get?]
    exact nofun

theorem get?_insert_self (scope : Context) (name : String) (value : Value) :
    (scope.insert [name] value).get? name = some value := by
  rw [insert, set, Keyed.set, get?, Keyed.lookup_update, if_pos rfl]

/-- A binding further inside makes a scope of what stands under its first part. -/
theorem get?_insert_cons (scope : Context) (name next : String) (rest : List String)
    (value : Value) : (scope.insert (name :: next :: rest) value).get? name =
      some (.container ((nested (scope.get? name)).insert (next :: rest) value)) := by
  rw [insert, get?, Keyed.lookup_update, if_pos rfl, get?]
  exact nofun

theorem at?_empty (name : List String) : empty.at? name = none := by
  rcases name with _ | ⟨first, _ | ⟨next, rest⟩⟩ <;> rfl

/-- A plain value has nothing under it, like an empty scope. -/
theorem at?_cons_cons (scope : Context) (name next : String) (rest : List String) :
    scope.at? (name :: next :: rest) = (nested (scope.get? name)).at? (next :: rest) := by
  rw [at?]
  · rcases scope.get? name with _ | _ | _ | _ | inner
    case some.container => rfl
    all_goals exact (at?_empty _).symm
  · exact nofun

/-- What has been bound at a path is found there. -/
theorem at?_insert_self {target : List String} (h : target ≠ []) (scope : Context)
    (value : Value) : (scope.insert target value).at? target = some value := by
  induction target generalizing scope with
  | nil => exact absurd rfl h
  | cons name rest ih =>
    cases rest with
    | nil => exact scope.get?_insert_self name value
    | cons next rest =>
      rw [at?_cons_cons, get?_insert_cons]
      exact ih (List.cons_ne_nil _ _) _

/-- A binding makes no difference to names that begin with another part. -/
theorem at?_insert_of_ne {first start : String} (h : first ≠ start) (scope : Context)
    (rest below : List String) (value : Value) :
    (scope.insert (start :: rest) value).at? (first :: below) = scope.at? (first :: below) := by
  cases below with
  | nil => exact get?_insert_of_ne h scope rest value
  | cons second below => rw [at?_cons_cons, at?_cons_cons, get?_insert_of_ne h]

/-- A name that stands for the same in two scopes does so after the same binding in both. -/
theorem at?_insert_congr {name : List String} {a b : Context} (h : a.at? name = b.at? name)
    (target : List String) (value : Value) :
    (a.insert target value).at? name = (b.insert target value).at? name := by
  -- the scopes are only compared along the name, so the induction goes down the name
  induction name generalizing a b target with
  | nil => rfl
  | cons first below ih =>
    cases target with
    | nil => exact h
    | cons start rest =>
      by_cases hstart : first = start
      · subst hstart
        cases below with
        | nil =>
          cases rest with
          | nil =>
            have ha := a.get?_insert_self first value
            have hb := b.get?_insert_self first value
            exact ha.trans hb.symm
          | cons next rest =>
            have hget : a.get? first = b.get? first := h
            change (a.insert (first :: next :: rest) value).get? first =
              (b.insert (first :: next :: rest) value).get? first
            rw [get?_insert_cons, get?_insert_cons, hget]
        | cons second below =>
          rw [at?_cons_cons, at?_cons_cons] at h
          rw [at?_cons_cons, at?_cons_cons]
          cases rest with
          | nil => rw [get?_insert_self, get?_insert_self]
          | cons next rest =>
            rw [get?_insert_cons, get?_insert_cons]
            exact ih h (next :: rest)
      · -- the binding goes to another place in both scopes
        rw [at?_insert_of_ne hstart, at?_insert_of_ne hstart, h]

/-- Bindings keep two scopes alike where they have been alike. -/
theorem at?_bindAll_congr {name : List String} {a b : Context} (h : a.at? name = b.at? name)
    (bindings : List Binding) : (a.bindAll bindings).at? name = (b.bindAll bindings).at? name := by
  induction bindings generalizing a b with
  | nil => exact h
  | cons binding rest ih => exact ih (at?_insert_congr h binding.1 binding.2)

/-- What a name stands for once it has been bound has nothing to do with the scope. -/
theorem at?_bindAll_of_mem {name : List String} {bindings : List Binding}
    (h : name ∈ bindings.map Prod.fst) (a b : Context) :
    (a.bindAll bindings).at? name = (b.bindAll bindings).at? name := by
  induction bindings generalizing a b with
  | nil => exact absurd h List.not_mem_nil
  | cons binding rest ih =>
    obtain ⟨target, value⟩ := binding
    rcases List.mem_cons.1 h with rfl | hlater
    -- this binding makes the scopes agree, and the later ones keep it so
    · refine at?_bindAll_congr ?_ rest
      by_cases hempty : name = []
      · subst hempty
        rfl
      · exact (at?_insert_self hempty a value).trans (at?_insert_self hempty b value).symm
    · exact ih hlater _ _

end PageTemplate.Context
