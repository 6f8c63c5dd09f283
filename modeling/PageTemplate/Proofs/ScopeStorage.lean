import PageTemplate.Context.Storage
import PageTemplate.Proofs.Merging

/-!
Stored scopes in normal form. Whatever has been bound, merged and collected, at every depth no name
is repeated and no plain value holds a container. So every container that is stored lies in nested
scopes only, where dotted names lead through it and later bindings go on in it.

A scope of the evaluation says nothing of the two kinds of entries. It is stored in one way, and
every operation on stored scopes is the operation on scopes; so what is known of paths in scopes
holds of the stored ones that can be made.
-/

namespace PageTemplate

mutual

/-- Values that are stored alike are the same. -/
theorem Value.eq_of_stored (a b : Value) (h : a.stored = b.stored) : a = b := by
  cases a with
  | int n =>
    cases b with
    | int m => exact congrArg Value.int (Storage.Value.int.inj h)
    | str | bool | container => exact absurd h nofun
  | str s =>
    cases b with
    | str t => exact congrArg Value.str (Storage.Value.str.inj h)
    | int | bool | container => exact absurd h nofun
  | bool p =>
    cases b with
    | bool q => exact congrArg Value.bool (Storage.Value.bool.inj h)
    | int | str | container => exact absurd h nofun
  | container scope =>
    cases b with
    | container other =>
      exact congrArg Value.container
        (Context.eq_of_stored scope other (Storage.Value.container.inj h))
    | int | str | bool => exact absurd h nofun

/-- Different scopes are stored differently. -/
theorem Context.eq_of_stored (a b : Context) (h : a.stored = b.stored) : a = b := by
  obtain ⟨left⟩ := a
  obtain ⟨right⟩ := b
  exact congrArg Context.mk (Context.eq_of_storedEntries left right (Storage.Scope.mk.inj h))

theorem Context.eq_of_storedEntries (a b : List (String × Value))
    (h : Context.storedEntries a = Context.storedEntries b) : a = b := by
  cases a with
  | nil =>
    cases b with
    | nil => rfl
    | cons => exact absurd h nofun
  | cons entry rest =>
    cases b with
    | nil => exact absurd h nofun
    | cons other more =>
      obtain ⟨hentry, hmore⟩ := List.cons.inj h
      obtain ⟨hname, hvalue⟩ := Prod.mk.inj hentry
      have hstored := congrArg Storage.Entry.toValue hvalue
      rw [Storage.Entry.toValue_ofValue, Storage.Entry.toValue_ofValue] at hstored
      have hsame : entry = other := Prod.ext hname (Value.eq_of_stored entry.2 other.2 hstored)
      rw [hsame, Context.eq_of_storedEntries rest more hmore]

end

namespace Context

theorem entries_stored (scope : Context) :
    scope.stored.entries = scope.entries.map (Prod.map id Value.entry) := by
  obtain ⟨entries⟩ := scope
  change storedEntries entries = _
  induction entries with
  | nil => rfl
  | cons entry rest ih =>
    rw [storedEntries, ih]
    rfl

theorem names_stored (scope : Context) : scope.stored.names = scope.names := by
  rw [Storage.Scope.names, entries_stored, List.map_map]
  rfl

theorem get?_stored (scope : Context) (name : String) :
    scope.stored.get? name = (scope.get? name).map Value.entry := by
  rw [Storage.Scope.get?, entries_stored, Keyed.lookup_map, get?]

theorem nested_stored (old : Option Value) :
    (nested old).stored = Storage.Scope.opened (old.map Value.entry) := by
  rcases old with _ | _ | _ | _ | scope <;> rfl

theorem values_stored (scope : Context) : scope.stored.values = scope.values.map Value.stored := by
  rw [Storage.Scope.values, entries_stored, values, List.map_map, List.map_map]
  apply List.map_congr_left
  intro entry _
  exact Storage.Entry.toValue_ofValue _

/-- The induction goes down the path, through the same scopes on both sides. -/
theorem at?_stored (scope : Context) (path : List String) :
    scope.stored.at? path = (scope.at? path).map Value.stored := by
  induction path generalizing scope with
  | nil => rfl
  | cons name rest ih =>
    have hget := scope.get?_stored name
    by_cases hrest : rest = []
    · subst hrest
      rw [Storage.Scope.at?, hget, at?, Option.map_map]
      apply congrArg (Option.map · _)
      funext value
      exact Storage.Entry.toValue_ofValue _
    · rw [Storage.Scope.at?_cons hrest, hget, ← nested_stored, ih, at?_cons hrest]

/-- A container that is found in the stored form is the stored form of a scope. -/
theorem exists_of_at?_stored {scope : Context} {path : List String} {inner : Storage.Scope}
    (h : scope.stored.at? path = some (.container inner)) :
    ∃ below : Context, scope.at? path = some (.container below) ∧ below.stored = inner := by
  rw [at?_stored] at h
  obtain ⟨value, hvalue, hstored⟩ := Option.map_eq_some_iff.1 h
  cases value with
  | container below => exact ⟨below, hvalue, Storage.Value.container.inj hstored⟩
  | int | str | bool => exact absurd hstored nofun

/-- A change under a name is stored as the change of what is stored there. -/
theorem update_stored {change : Option Value → Value}
    {change' : Option Storage.Entry → Storage.Entry}
    (h : ∀ old, (change old).entry = change' (old.map Value.entry)) (scope : Context)
    (name : String) : (Context.mk (Keyed.update name change scope.entries)).stored =
      ⟨Keyed.update name change' scope.stored.entries⟩ := by
  have hentries := entries_stored ⟨Keyed.update name change scope.entries⟩
  rw [Keyed.map_update Value.entry h, ← entries_stored] at hentries
  exact congrArg Storage.Scope.mk hentries

theorem set_stored (scope : Context) (name : String) (value : Value) :
    (scope.set name value).stored = scope.stored.set name value.stored :=
  update_stored (fun _ => rfl) scope name

/-- A binding in the stored form of a scope is the stored form of the binding. -/
theorem insert_stored (scope : Context) (path : List String) (value : Value) :
    (scope.insert path value).stored = scope.stored.insert path value.stored := by
  induction path generalizing scope with
  | nil => rfl
  | cons name rest ih =>
    by_cases hrest : rest = []
    · subst hrest
      exact set_stored scope name value
    · rw [insert, Storage.Scope.insert_cons hrest]
      · apply update_stored
        intro old
        rw [← nested_stored, ← ih]
        rfl
      · exact hrest

/-- Bindings can be made before a scope is stored or after. -/
theorem setAll_stored (scope : Context) (bindings : List (String × Value)) :
    (scope.setAll bindings).stored =
      scope.stored.setAll (bindings.map (Prod.map id Value.stored)) := by
  induction bindings generalizing scope with
  | nil => rfl
  | cons binding rest ih =>
    have hrest := ih (scope.set binding.1 binding.2)
    rw [set_stored] at hrest
    exact hrest

/-- The right entries are taken over as they are, which is how their values would be stored. -/
theorem merge_stored (left right : Context) :
    (left.merge right).stored = left.stored.merge right.stored := by
  obtain ⟨bindings⟩ := right
  rw [merge, Storage.Scope.merge, entries_stored ⟨bindings⟩]
  induction bindings generalizing left with
  | nil =>
    obtain ⟨entries⟩ := left
    rfl
  | cons binding rest ih =>
    have hrest := ih (left.set binding.1 binding.2)
    rw [set_stored] at hrest
    exact hrest

end Context

namespace Storage

def Value.From (p : Scope → Prop) (value : Value) : Prop :=
  ∀ inner, value = .container inner → p inner

namespace Scope

/-- The scope that is stored at a path, be it as a nested scope or inside a plain value. -/
inductive Holds : Scope → List String → Scope → Prop
  | here (scope : Scope) : Holds scope [] scope
  | under {scope inner deep : Scope} {name : String} {entry : Entry} {path : List String} :
    (name, entry) ∈ scope.entries → entry.toValue = .container inner → Holds inner path deep →
      Holds scope (name :: path) deep

/-- At every depth no name is repeated, and no plain value holds a container. -/
def Normal (scope : Scope) : Prop :=
  ∀ path inner, scope.Holds path inner →
    inner.names.Nodup ∧ ∀ name deep, (name, Entry.plain (.container deep)) ∉ inner.entries

/-- Scopes that can be made: from the empty scope, by bindings, merging and collecting. A container
is made before it is bound. -/
inductive Reachable : Scope → Prop
  | empty : Reachable empty
  | set {scope : Scope} (name : String) {value : Value} :
    Reachable scope → value.From Reachable → Reachable (scope.set name value)
  | insert {scope : Scope} (path : List String) {value : Value} :
    Reachable scope → value.From Reachable → Reachable (scope.insert path value)
  | merge {left right : Scope} : Reachable left → Reachable right → Reachable (left.merge right)
  | ofList {bindings : List (String × Value)} :
    (∀ binding ∈ bindings, binding.2.From Reachable) → Reachable (ofList bindings)

end Scope

def Entry.Normal : Entry → Prop
  | .plain value => ∀ inner, value ≠ .container inner
  | .nested scope => scope.Normal

namespace Scope

variable {scope : Scope}

/-- A scope is in normal form if no name is repeated and all entries are in normal form. -/
theorem normal_iff :
    scope.Normal ↔ scope.names.Nodup ∧ ∀ entry ∈ scope.entries, entry.2.Normal := by
  constructor
  · intro h
    obtain ⟨hdistinct, hplain⟩ := h [] scope (.here scope)
    refine ⟨hdistinct, ?_⟩
    rintro ⟨name, value | inner⟩ hentry
    · rintro deep rfl
      exact hplain name deep hentry
    · intro path deep hdeep
      exact h (name :: path) deep (.under hentry rfl hdeep)
  · rintro ⟨hdistinct, hentries⟩ path inner hinner
    -- a scope further inside lies in that of an entry, which is nested as the entry is normal
    cases hinner with
    | here =>
      refine ⟨hdistinct, ?_⟩
      intro name deep hplain
      exact hentries _ hplain deep rfl
    | @under _ between _ name entry path hentry hvalue hdeep =>
      have hentry := hentries _ hentry
      cases entry with
      | plain value => exact absurd hvalue (hentry between)
      | nested scope =>
        obtain rfl := Value.container.inj hvalue
        exact hentry path inner hdeep

theorem normal_ofValue {value : Value} (h : value.From Normal) : (Entry.ofValue value).Normal := by
  cases value with
  | container inner => exact h inner rfl
  | int | str | bool => exact nofun

theorem normal_empty : empty.Normal :=
  normal_iff.2 ⟨List.nodup_nil, nofun⟩

theorem normal_opened {old : Option Entry} (h : ∀ entry, old = some entry → entry.Normal) :
    (opened old).Normal := by
  rcases old with _ | value | inner
  · exact normal_empty
  · exact normal_empty
  · exact h _ rfl

/-- One entry can be changed as long as it comes to a normal one. -/
theorem Normal.update (h : scope.Normal) (name : String) {change : Option Entry → Entry}
    (hchange : ∀ old, (∀ entry, old = some entry → entry.Normal) → (change old).Normal) :
    Normal ⟨Keyed.update name change scope.entries⟩ := by
  obtain ⟨hdistinct, hentries⟩ := normal_iff.1 h
  exact normal_iff.2 ⟨Keyed.nodup_keys_update name change hdistinct,
    Keyed.forall_update hchange hentries⟩

theorem Normal.set (h : scope.Normal) (name : String) {value : Value}
    (hvalue : value.From Normal) : (scope.set name value).Normal :=
  h.update name fun _ _ => normal_ofValue hvalue

/-- The scopes on the way are old ones, which are normal, or empty ones. -/
theorem Normal.insert (h : scope.Normal) (path : List String) {value : Value}
    (hvalue : value.From Normal) : (scope.insert path value).Normal := by
  induction path generalizing scope with
  | nil => exact h
  | cons name rest ih =>
    by_cases hrest : rest = []
    · subst hrest
      exact h.set name hvalue
    · rw [insert_cons hrest]
      apply h.update
      intro old hold
      exact ih (normal_opened hold)

/-- Merging takes its entries from two scopes in normal form. -/
theorem Normal.merge (h : scope.Normal) {right : Scope} (hright : right.Normal) :
    (scope.merge right).Normal := by
  obtain ⟨entries⟩ := right
  obtain ⟨-, hentries⟩ := normal_iff.1 hright
  rw [Scope.merge]
  clear hright
  induction entries generalizing scope with
  | nil =>
    obtain ⟨entries⟩ := scope
    exact h
  | cons entry rest ih =>
    obtain ⟨hentry, hrest⟩ := List.forall_mem_cons.1 hentries
    exact ih (h.update entry.1 fun _ _ => hentry) hrest

theorem Normal.setAll (h : scope.Normal) {bindings : List (String × Value)}
    (hvalues : ∀ binding ∈ bindings, binding.2.From Normal) : (scope.setAll bindings).Normal := by
  induction bindings generalizing scope with
  | nil => exact h
  | cons binding rest ih =>
    obtain ⟨hvalue, hrest⟩ := List.forall_mem_cons.1 hvalues
    exact ih (h.set binding.1 hvalue) hrest

/-- By induction on how the scope has been made. -/
theorem Reachable.normal (h : scope.Reachable) : scope.Normal := by
  induction h with
  | empty => exact normal_empty
  | set name _ _ ih hvalue => exact ih.set name hvalue
  | insert path _ _ ih hvalue => exact ih.insert path hvalue
  | merge _ _ hleft hright => exact hleft.merge hright
  | ofList _ hvalues => exact normal_empty.setAll hvalues

end Scope

theorem exists_stored_value {value : Value}
    (h : value.From fun inner => ∃ meant : Context, meant.stored = inner) :
    ∃ meant : PageTemplate.Value, meant.stored = value := by
  cases value with
  | int n => exact ⟨.int n, rfl⟩
  | str s => exact ⟨.str s, rfl⟩
  | bool b => exact ⟨.bool b, rfl⟩
  | container inner =>
    obtain ⟨meant, rfl⟩ := h inner rfl
    exact ⟨.container meant, rfl⟩

theorem exists_stored_bindings {bindings : List (String × Value)}
    (h : ∀ binding ∈ bindings, ∃ meant : PageTemplate.Value, meant.stored = binding.2) :
    ∃ meant : List (String × PageTemplate.Value),
      meant.map (Prod.map id PageTemplate.Value.stored) = bindings := by
  induction bindings with
  | nil => exact ⟨[], rfl⟩
  | cons binding rest ih =>
    obtain ⟨name, value⟩ := binding
    obtain ⟨hvalue, hrest⟩ := List.forall_mem_cons.1 h
    obtain ⟨meant, rfl⟩ := hvalue
    obtain ⟨others, rfl⟩ := ih hrest
    exact ⟨(name, meant) :: others, rfl⟩

namespace Scope

variable {scope : Scope}

/-- The operations that make a stored scope make a scope of the evaluation that is stored so. -/
theorem Reachable.exists_stored (h : scope.Reachable) :
    ∃ meant : Context, meant.stored = scope := by
  induction h with
  | empty => exact ⟨.empty, rfl⟩
  | set name _ _ ih hvalue =>
    obtain ⟨meant, rfl⟩ := ih
    obtain ⟨value, rfl⟩ := exists_stored_value hvalue
    exact ⟨meant.set name value, meant.set_stored name value⟩
  | insert path _ _ ih hvalue =>
    obtain ⟨meant, rfl⟩ := ih
    obtain ⟨value, rfl⟩ := exists_stored_value hvalue
    exact ⟨meant.insert path value, meant.insert_stored path value⟩
  | merge _ _ hleft hright =>
    obtain ⟨left, rfl⟩ := hleft
    obtain ⟨right, rfl⟩ := hright
    exact ⟨left.merge right, left.merge_stored right⟩
  | ofList _ hvalues =>
    obtain ⟨bindings, rfl⟩ :=
      exists_stored_bindings fun binding hbinding => exists_stored_value (hvalues binding hbinding)
    exact ⟨.ofList bindings, Context.empty.setAll_stored bindings⟩

theorem Normal.get?_of_mem (h : scope.Normal) {name : String} {entry : Entry}
    (hentry : (name, entry) ∈ scope.entries) : scope.get? name = some entry :=
  Keyed.lookup_of_mem (normal_iff.1 h).1 hentry

/-- An entry in normal form can be read as a value and stored again. -/
theorem Normal.ofValue_toValue (h : scope.Normal) {name : String} {entry : Entry}
    (hentry : (name, entry) ∈ scope.entries) : Entry.ofValue entry.toValue = entry := by
  have hnormal := (normal_iff.1 h).2 _ hentry
  rcases entry with (_ | _ | _ | inner) | inner
  case plain.container => exact absurd rfl (hnormal inner)
  all_goals rfl

/-- Wherever a container is stored, dotted names lead to it and through it. The induction follows
the place; at each step the scope further inside is an entry of its own. -/
theorem Normal.at?_of_holds (h : scope.Normal) {path : List String} {inner : Scope}
    (hinner : scope.Holds path inner) :
    (path ≠ [] → scope.at? path = some (.container inner)) ∧
      ∀ rest, rest ≠ [] → scope.at? (path ++ rest) = inner.at? rest := by
  induction hinner with
  | here => exact ⟨fun hpath => absurd rfl hpath, fun rest _ => rfl⟩
  | @under scope between deep name entry path hentry hvalue hdeep ih =>
    -- a plain value here would end the walk
    have hnested : entry = .nested between := by
      rw [← h.ofValue_toValue hentry, hvalue]
      rfl
    subst hnested
    have hget := h.get?_of_mem hentry
    have hbetween : between.Normal := (normal_iff.1 h).2 _ hentry
    obtain ⟨hpath, hwalk⟩ := ih hbetween
    constructor
    · intro _
      by_cases hend : path = []
      · subst hend
        cases hdeep
        rw [at?, hget]
        rfl
      · rw [at?_cons hend, hget]
        exact hpath hend
    · intro rest hrest
      have hgoesOn : path ++ rest ≠ [] := List.append_ne_nil_of_right_ne_nil path hrest
      rw [List.cons_append, at?_cons hgoesOn, hget]
      exact hwalk rest hrest

/-- Out of normal form a container can be read as a whole and yet not be walked. -/
example : let scope : Scope := ⟨[("post", .plain (.container ⟨[("title", .plain (.str "A"))]⟩))]⟩
    scope.at? ["post"] = some (.container ⟨[("title", .plain (.str "A"))]⟩) ∧
      scope.at? ["post", "title"] = none :=
  ⟨rfl, rfl⟩

theorem get?_setAll_of_not_mem {name : String} {bindings : List (String × Value)}
    (h : name ∉ bindings.map Prod.fst) (scope : Scope) :
    (scope.setAll bindings).get? name = scope.get? name := by
  induction bindings generalizing scope with
  | nil => rfl
  | cons binding rest ih =>
    obtain ⟨hne, hrest⟩ := not_or.1 (mt List.mem_cons.2 h)
    have hset := scope.get?_set binding.1 binding.2 name
    rw [if_neg hne] at hset
    exact (ih hrest _).trans hset

structure Keeps (scope : Scope) : Prop where
  /-- An entry is what its value becomes when it is bound, and it is found under its name. -/
  found : ∀ name entry, (name, entry) ∈ scope.entries →
    scope.get? name = some entry ∧ Entry.ofValue entry.toValue = entry
  /-- Dotted names lead to every container, however deep it is, and go on inside it. -/
  walked : ∀ path inner, path ≠ [] → scope.Holds path inner →
    scope.at? path = some (.container inner) ∧
      ∀ rest, rest ≠ [] → scope.at? (path ++ rest) = inner.at? rest
  /-- A binding inside a container extends the container. -/
  extended : ∀ path inner rest value, path ≠ [] → rest ≠ [] → scope.Holds path inner →
    value.From Reachable →
      (scope.insert (path ++ rest) value).at? path = some (.container (inner.insert rest value))
  /-- Nothing that lies aside is lost. -/
  aside : ∀ path value other, value.From Reachable → ¬other <+: path → ¬path <+: other →
    (scope.insert path value).at? other = scope.at? other
  /-- What is bound is given back; a single name is a path, too. -/
  bound : ∀ path value, path ≠ [] → value.From Reachable →
    (scope.insert path value).at? path = some value
  /-- Of several bindings of a name the last one counts. -/
  collected : ∀ front name value back, name ∉ back.map Prod.fst →
    (scope.setAll (front ++ (name, value) :: back)).at? [name] = some value
  /-- What is merged in is given back, and the rest stays. -/
  merged : ∀ right name, right.Reachable →
    (scope.merge right).at? [name] = (right.at? [name]).or (scope.at? [name])

/-- A stored scope answers as the scope that is meant does, and goes on to be its stored form. -/
structure Represents (scope : Scope) (meant : Context) : Prop where
  stored : meant.stored = scope
  names : scope.names = meant.names
  values : scope.values = meant.values.map PageTemplate.Value.stored
  at? : ∀ path, scope.at? path = (meant.at? path).map PageTemplate.Value.stored
  set : ∀ name value, scope.set name value.stored = (meant.set name value).stored
  insert : ∀ path value, scope.insert path value.stored = (meant.insert path value).stored
  setAll : ∀ bindings, scope.setAll (bindings.map (Prod.map id PageTemplate.Value.stored)) =
    (meant.setAll bindings).stored
  merge : ∀ other : Context, scope.merge other.stored = (meant.merge other).stored

/-- The stored form of a scope answers all questions as the scope does. -/
theorem represents_stored (meant : Context) : meant.stored.Represents meant where
  stored := rfl
  names := meant.names_stored
  values := meant.values_stored
  at? := meant.at?_stored
  set name value := (meant.set_stored name value).symm
  insert path value := (meant.insert_stored path value).symm
  setAll bindings := (meant.setAll_stored bindings).symm
  merge other := (meant.merge_stored other).symm

/-- A scope that can be made is the stored form of some scope, and that answers for it. -/
theorem Reachable.keeps (h : scope.Reachable) : scope.Keeps := by
  have hnormal := h.normal
  -- a binding is made in the scope that is meant, where the laws of paths are known
  obtain ⟨meant, rfl⟩ := h.exists_stored
  have exists_value (value : Value) (hvalue : value.From Reachable) :
      ∃ meant : PageTemplate.Value, meant.stored = value :=
    exists_stored_value fun inner hinner => (hvalue inner hinner).exists_stored
  constructor
  case found =>
    intro name entry hentry
    exact ⟨hnormal.get?_of_mem hentry, hnormal.ofValue_toValue hentry⟩
  case walked =>
    intro path inner hpath hinner
    obtain ⟨hat, hwalk⟩ := hnormal.at?_of_holds hinner
    exact ⟨hat hpath, hwalk⟩
  case extended =>
    intro path inner rest value hpath hrest hinner hvalue
    obtain ⟨value, rfl⟩ := exists_value value hvalue
    obtain ⟨below, hbelow, rfl⟩ :=
      Context.exists_of_at?_stored ((hnormal.at?_of_holds hinner).1 hpath)
    have hafter : (meant.insert (path ++ rest) value).at? path = _ :=
      Context.at?_insert_onTheWay hpath hrest meant
    rw [← Context.insert_stored, Context.at?_stored, hafter, hbelow, ← Context.insert_stored]
    rfl
  case aside =>
    intro path value other hvalue hother hpath
    obtain ⟨value, rfl⟩ := exists_value value hvalue
    rw [← Context.insert_stored, Context.at?_stored, Context.at?_stored,
      Context.at?_insert_aside hother hpath]
  case bound =>
    intro path value hpath hvalue
    obtain ⟨value, rfl⟩ := exists_value value hvalue
    rw [← Context.insert_stored, Context.at?_stored, Context.at?_insert_self hpath]
    rfl
  case collected =>
    intro front name value back hback
    rw [setAll, List.foldl_append, List.foldl_cons, ← setAll, ← setAll, at?,
      get?_setAll_of_not_mem hback, get?_set, if_pos rfl, Option.map_some,
      Entry.toValue_ofValue]
  case merged =>
    intro right name hright
    have hdistinct := (normal_iff.1 hright.normal).1
    obtain ⟨right, rfl⟩ := hright.exists_stored
    rw [Context.names_stored] at hdistinct
    have hget := Context.get?_merge meant hdistinct name
    change (meant.merge right).at? [name] = (right.at? [name]).or (meant.at? [name]) at hget
    rw [← Context.merge_stored, Context.at?_stored, Context.at?_stored, Context.at?_stored, hget,
      Option.map_or]

/-- Scopes stay in normal form however they are made: at every depth no name is repeated and no
plain value holds a container. So dotted names lead through every container, later bindings extend
it and lose nothing aside, and what has been stored is given back. Each such scope is the stored
form of exactly one scope of the evaluation, and remains so under the same operations on both. -/
theorem reachable_scopes_are_normal (h : scope.Reachable) :
    scope.Normal ∧ scope.Keeps ∧ (∀ value, (Entry.ofValue value).toValue = value) ∧
      ∃! meant : Context, scope.Represents meant := by
  obtain ⟨meant, hmeant⟩ := h.exists_stored
  refine ⟨h.normal, h.keeps, Entry.toValue_ofValue, meant, ?_, ?_⟩
  · rw [← hmeant]
    exact represents_stored meant
  · intro other hother
    exact Context.eq_of_stored other meant (hother.stored.trans hmeant.symm)

/-- A post is collected and stored at two places, one of which was a plain number before. Its title
is found at both, and tags that are added later come to stand beside it. -/
theorem reachable_scopes_are_normal_of_posts :
    let post := ofList [("title", .str "A")]
    let scope := ((empty.set "page" (.int 1)).insert ["page", "post"] (.container post)).merge
      (empty.set "last" (.container post))
    let tagged := scope.insert ["page", "post", "tags", "first"] (.str "B")
    scope.Reachable ∧ scope.Normal ∧ scope.at? ["page", "post", "title"] = some (.str "A") ∧
      scope.at? ["last"] = some (.container post) ∧
      tagged.at? ["page", "post"] = some (.container (post.insert ["tags", "first"] (.str "B"))) ∧
      tagged.at? ["last"] = some (.container post) := by
  intro post scope tagged
  have hpost : post.Reachable := .ofList (List.forall_mem_singleton.2 nofun)
  have hvalue : (Value.container post).From Reachable := by
    intro inner hinner
    rwa [← Value.container.inj hinner]
  have hscope : scope.Reachable :=
    .merge (.insert _ (.set _ .empty nofun) hvalue) (.set _ .empty hvalue)
  obtain ⟨hnormal, hkeeps, -, -⟩ := reachable_scopes_are_normal hscope
  -- the number under `page` has given way to a scope
  have houter : ("page", Entry.nested ⟨[("post", .nested post)]⟩) ∈ scope.entries :=
    List.mem_cons_self
  have hinner : ("post", Entry.nested post) ∈ [("post", Entry.nested post)] := List.mem_cons_self
  have hlast : ("last", Entry.nested post) ∈ scope.entries :=
    List.mem_cons_of_mem _ List.mem_cons_self
  have hpage : scope.Holds ["page", "post"] post :=
    .under houter rfl (.under hinner rfl (.here post))
  have hpath : ["page", "post"] ≠ [] := List.cons_ne_nil _ _
  have hbehind : ["tags", "first"] ≠ [] := List.cons_ne_nil _ _
  have htag : (Value.str "B").From Reachable := nofun
  have hfound : scope.at? ["last"] = some (.container post) :=
    (hkeeps.walked ["last"] post (List.cons_ne_nil _ _) (.under hlast rfl (.here post))).1
  refine ⟨hscope, hnormal, ?_, hfound, ?_, ?_⟩
  · exact (hkeeps.walked _ post hpath hpage).2 ["title"] (List.cons_ne_nil _ _)
  · exact hkeeps.extended _ post _ _ hpath hbehind hpage htag
  · rw [← hfound]
    exact hkeeps.aside _ _ ["last"] htag (by decide) (by decide)

end Scope
end Storage
end PageTemplate
