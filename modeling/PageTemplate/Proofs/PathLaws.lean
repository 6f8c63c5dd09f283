import PageTemplate.Proofs.DottedNames

namespace PageTemplate

def Value.at? (path : List String) : Value → Option Value
  | .container scope => scope.at? path
  | _ => none

namespace Context

/-- The scope at a path, empty where there is none. At the empty path it is the scope itself. -/
def level (scope : Context) : List String → Context
  | [] => scope
  | name :: rest => nested (scope.at? (name :: rest))

/-- How a scope differs after a value has been bound at a path. -/
structure BoundAt (path : List String) (value : Value) (before after : Context) : Prop where
  here : after.at? path = some value
  /-- What is inside the value can be reached through the path. -/
  beyond : ∀ rest, rest ≠ [] → after.at? (path ++ rest) = value.at? rest
  /-- A scope on the way is the old one with the value bound at what remains of the path. -/
  onTheWay : ∀ above rest, above ≠ [] → rest ≠ [] → path = above ++ rest →
    after.at? above = some (.container ((nested (before.at? above)).insert rest value))
  aside : ∀ other, ¬other <+: path → ¬path <+: other → after.at? other = before.at? other
  /-- On each level a name that is there keeps its place, and a new one goes last. -/
  names : ∀ above name rest, path = above ++ name :: rest →
    (after.level above).names =
      if name ∈ (before.level above).names then (before.level above).names
      else (before.level above).names ++ [name]

theorem nested_at? (value : Value) (path : List String) :
    (nested (some value)).at? path = value.at? path := by
  cases value with
  | container scope => rfl
  | int | str | bool => exact at?_empty path

section

variable {rest : List String} (h : rest ≠ [])

include h

/-- A path leads into the scope under its first name, and there is an empty one if there is none. -/
theorem at?_cons (scope : Context) (name : String) :
    scope.at? (name :: rest) = (nested (scope.get? name)).at? rest := by
  obtain ⟨next, more, rfl⟩ := List.exists_cons_of_ne_nil h
  exact scope.at?_cons_cons name next more

/-- Binding further inside turns whatever stands under the first name into a scope. -/
theorem get?_insert_head (scope : Context) (name : String) (value : Value) :
    (scope.insert (name :: rest) value).get? name =
      some (.container ((nested (scope.get? name)).insert rest value)) := by
  obtain ⟨next, more, rfl⟩ := List.exists_cons_of_ne_nil h
  exact scope.get?_insert_cons name next more value

end

theorem level_cons (scope : Context) (name : String) (rest : List String) :
    scope.level (name :: rest) = (nested (scope.get? name)).level rest := by
  cases rest with
  | nil => rfl
  | cons next more =>
    rw [level, at?_cons_cons]
    rfl

/-- A path is walked part by part: what follows a part is looked up in the scope found there. -/
theorem at?_append (scope : Context) (above : List String) {rest : List String} (h : rest ≠ []) :
    scope.at? (above ++ rest) = (scope.level above).at? rest := by
  induction above generalizing scope with
  | nil => rfl
  | cons name more ih =>
    have hbelow : more ++ rest ≠ [] := List.append_ne_nil_of_right_ne_nil more h
    calc scope.at? (name :: (more ++ rest))
        = (nested (scope.get? name)).at? (more ++ rest) := at?_cons hbelow scope name
      _ = ((nested (scope.get? name)).level more).at? rest := ih _
      _ = (scope.level (name :: more)).at? rest := by rw [level_cons]

variable {path rest : List String} {value : Value}

/-- Beyond the place of the binding there is what the value has. -/
theorem at?_insert_beyond (hpath : path ≠ []) (h : rest ≠ []) (scope : Context) :
    (scope.insert path value).at? (path ++ rest) = value.at? rest := by
  obtain ⟨name, more, rfl⟩ := List.exists_cons_of_ne_nil hpath
  have hvalue := at?_insert_self hpath scope value
  rw [at?_append _ _ h, level, hvalue, nested_at?]

/-- The induction goes down the part of the path on which the scope lies; the binding makes each
scope on the way, so that it can go on in the next one. -/
theorem at?_insert_onTheWay {above : List String} (habove : above ≠ []) (h : rest ≠ [])
    (scope : Context) : (scope.insert (above ++ rest) value).at? above =
      some (.container ((nested (scope.at? above)).insert rest value)) := by
  induction above generalizing scope with
  | nil => exact absurd rfl habove
  | cons name more ih =>
    have hbelow : more ++ rest ≠ [] := List.append_ne_nil_of_right_ne_nil more h
    have hget := get?_insert_head hbelow scope name value
    by_cases hmore : more = []
    · subst hmore
      exact hget
    · rw [List.cons_append, at?_cons hmore, hget, at?_cons hmore]
      exact ih hmore _

/-- On the way to a binding, each scope has the rest of it bound. -/
theorem level_insert (scope : Context) (above : List String) (h : rest ≠ []) :
    (scope.insert (above ++ rest) value).level above = (scope.level above).insert rest value := by
  cases above with
  | nil => rfl
  | cons name more =>
    rw [level, at?_insert_onTheWay (List.cons_ne_nil _ _) h]
    rfl

/-- Paths that part at some name do not meet again. -/
theorem at?_insert_aside {other : List String} (hother : ¬other <+: path)
    (hpath : ¬path <+: other) (scope : Context) :
    (scope.insert path value).at? other = scope.at? other := by
  induction path generalizing scope other with
  | nil => exact absurd List.nil_prefix hpath
  | cons start rest ih =>
    cases other with
    | nil => exact absurd List.nil_prefix hother
    | cons first below =>
      by_cases hstart : first = start
      · subst hstart
        rw [List.cons_prefix_cons, not_and] at hother hpath
        have hbelow := hother rfl
        have hrest := hpath rfl
        -- neither path ends here, as the empty path is the beginning of every other
        have hmore : below ≠ [] := fun hnil => hbelow (hnil ▸ List.nil_prefix)
        have hnext : rest ≠ [] := fun hnil => hrest (hnil ▸ List.nil_prefix)
        rw [at?_cons hmore, at?_cons hmore, get?_insert_head hnext]
        exact ih hbelow hrest _
      · exact at?_insert_of_ne hstart scope rest below value

/-- A binding keeps the names in order and adds one at most. -/
theorem names_insert (scope : Context) (name : String) (rest : List String) (value : Value) :
    (scope.insert (name :: rest) value).names =
      if name ∈ scope.names then scope.names else scope.names ++ [name] := by
  cases rest with
  | nil => exact Keyed.keys_update name _ scope.entries
  | cons next more =>
    rw [insert]
    · exact Keyed.keys_update name _ scope.entries
    · exact List.cons_ne_nil next more

/-- A binding at the empty path changes nothing. Any other puts the value at its path, makes the
scopes on the way, leaves all that lies aside as it was and keeps the order of the names. -/
theorem insert_obeys_path_laws (scope : Context) (value : Value) :
    scope.insert [] value = scope ∧
    ∀ path, path ≠ [] → BoundAt path value scope (scope.insert path value) := by
  refine ⟨rfl, fun path hpath => ?_⟩
  constructor
  case here => exact at?_insert_self hpath scope value
  case beyond =>
    intro rest hrest
    exact at?_insert_beyond hpath hrest scope
  case onTheWay =>
    rintro above rest habove hrest rfl
    exact at?_insert_onTheWay habove hrest scope
  case aside =>
    intro other hother hbeside
    exact at?_insert_aside hother hbeside scope
  case names =>
    rintro above name rest rfl
    rw [level_insert scope above (List.cons_ne_nil name rest), names_insert]

/-- A title is bound where `post` is a plain number: the number gives way to a scope, in the place
that it had among the names. -/
theorem insert_obeys_path_laws_under_plain_value :
    let scope : Context := ⟨[("post", .int 1), ("page", .int 2)]⟩
    let title := Value.container ⟨[("text", .str "A")]⟩
    let after := scope.insert ["post", "title"] title
    ["post", "title"] ≠ [] ∧ BoundAt ["post", "title"] title scope after ∧
      after.at? ["post", "title", "text"] = some (.str "A") ∧
      after.at? ["post"] = some (.container ⟨[("title", title)]⟩) ∧
      after.at? ["page"] = some (.int 2) ∧ after.names = ["post", "page"] := by
  intro scope title after
  have hpath : ["post", "title"] ≠ [] := List.cons_ne_nil _ _
  have hbound : BoundAt ["post", "title"] title scope after :=
    (insert_obeys_path_laws scope title).2 ["post", "title"] hpath
  refine ⟨hpath, hbound, ?_, ?_, ?_, ?_⟩
  · exact hbound.beyond ["text"] (List.cons_ne_nil _ _)
  · exact hbound.onTheWay ["post"] ["title"] (List.cons_ne_nil _ _) (List.cons_ne_nil _ _) rfl
  · exact hbound.aside ["page"] (by decide) (by decide)
  · exact hbound.names [] "post" ["title"] rfl

end Context
end PageTemplate
