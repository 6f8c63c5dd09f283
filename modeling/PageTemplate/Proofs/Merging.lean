import Mathlib.Data.List.Nodup
import PageTemplate.Proofs.PathLaws

namespace PageTemplate

namespace Keyed

variable {κ α : Type} [DecidableEq κ]

/-- An update never adds a key that is there. -/
theorem nodup_keys_update (key : κ) (change : Option α → α) {entries : List (κ × α)}
    (h : (entries.map Prod.fst).Nodup) : ((update key change entries).map Prod.fst).Nodup := by
  rw [keys_update]
  split
  · exact h
  · next hnew =>
    rw [← List.concat_eq_append]
    exact h.concat hnew

variable [BEq κ] [LawfulBEq κ]

theorem lookup_isSome_iff {key : κ} {entries : List (κ × α)} :
    (entries.lookup key).isSome ↔ key ∈ entries.map Prod.fst := by
  induction entries with
  | nil => simp
  | cons entry rest ih =>
    obtain ⟨j, a⟩ := entry
    by_cases h : key = j
    · simp [h]
    · rw [lookup_cons_eq_if, if_neg h, ih, List.map_cons, List.mem_cons, or_iff_right h]

theorem lookup_eq_none {key : κ} {entries : List (κ × α)} (h : key ∉ entries.map Prod.fst) :
    entries.lookup key = none :=
  Option.not_isSome_iff_eq_none.1 fun hsome => h (lookup_isSome_iff.1 hsome)

/-- Where no key is repeated, every entry is found. -/
theorem lookup_of_mem {key : κ} {a : α} {entries : List (κ × α)}
    (h : (entries.map Prod.fst).Nodup) (hmem : (key, a) ∈ entries) :
    entries.lookup key = some a := by
  induction entries with
  | nil => exact absurd hmem List.not_mem_nil
  | cons entry rest ih =>
    obtain ⟨j, b⟩ := entry
    obtain ⟨hfresh, hrest⟩ := List.nodup_cons.1 h
    rw [lookup_cons_eq_if]
    rcases List.mem_cons.1 hmem with heq | hlater
    · obtain ⟨rfl, rfl⟩ := Prod.mk.inj heq
      rw [if_pos rfl]
    · have hmemkeys : key ∈ rest.map Prod.fst := List.mem_map_of_mem hlater
      have hne : key ≠ j := fun heq => hfresh (heq ▸ hmemkeys)
      rw [if_neg hne, ih hrest hlater]

/-- Entries are known by their keys and by what is found under them, if no key is repeated. -/
theorem eq_of_lookup {left right : List (κ × α)} (h : (left.map Prod.fst).Nodup)
    (hkeys : left.map Prod.fst = right.map Prod.fst)
    (hlookup : ∀ key, left.lookup key = right.lookup key) : left = right := by
  induction left generalizing right with
  | nil => exact (List.map_eq_nil_iff.1 hkeys.symm).symm
  | cons entry rest ih =>
    obtain ⟨key, a⟩ := entry
    obtain ⟨other, more, rfl, hother, hmore⟩ := List.map_eq_cons_iff.1 hkeys.symm
    obtain ⟨key', b⟩ := other
    subst hother
    obtain ⟨hfresh, hrest⟩ := List.nodup_cons.1 h
    have hvalue := hlookup key'
    rw [lookup_cons_eq_if, lookup_cons_eq_if, if_pos rfl, if_pos rfl] at hvalue
    have hbelow : rest = more := by
      refine ih hrest hmore.symm fun k => ?_
      -- the first key is under neither of the rests, and another is found in the rests only
      by_cases hk : k = key'
      · subst hk
        rw [lookup_eq_none hfresh, lookup_eq_none (hmore ▸ hfresh)]
      · have hfound := hlookup k
        rwa [lookup_cons_eq_if, lookup_cons_eq_if, if_neg hk, if_neg hk] at hfound
    rw [Option.some.inj hvalue, hbelow]

end Keyed

namespace Context

/-- No name is there twice. All scopes that are made by bindings are like this. -/
def Distinct (scope : Context) : Prop := scope.names.Nodup

/-- A scope is its names in order with what they stand for. -/
theorem eq_of_get? {a b : Context} (ha : a.Distinct) (hnames : a.names = b.names)
    (hget : ∀ name, a.get? name = b.get? name) : a = b := by
  obtain ⟨left⟩ := a
  obtain ⟨right⟩ := b
  exact congrArg Context.mk (Keyed.eq_of_lookup ha hnames hget)

theorem distinct_empty : empty.Distinct := List.nodup_nil

/-- Binding a name twice leaves one entry for it. -/
theorem Distinct.insert {scope : Context} (h : scope.Distinct) (path : List String)
    (value : Value) : (scope.insert path value).Distinct := by
  rcases path with _ | ⟨name, _ | ⟨next, rest⟩⟩
  · exact h
  · exact Keyed.nodup_keys_update name _ h
  · rw [Context.insert]
    · exact Keyed.nodup_keys_update name _ h
    · exact List.cons_ne_nil next rest

theorem Distinct.setAll {scope : Context} (h : scope.Distinct) (bindings : List (String × Value)) :
    (scope.setAll bindings).Distinct := by
  induction bindings generalizing scope with
  | nil => exact h
  | cons binding rest ih => exact ih (h.insert [binding.1] binding.2)

/-- However a scope has been listed, no name is in it twice. -/
theorem distinct_ofList (bindings : List (String × Value)) : (ofList bindings).Distinct :=
  distinct_empty.setAll bindings

variable {bindings : List (String × Value)}

/-- Each binding adds its name at the end unless the name is there. No other binding is made under
the name, so what is new can be seen in the scope before all of them. -/
theorem names_setAll (scope : Context) (h : (bindings.map Prod.fst).Nodup) :
    (scope.setAll bindings).names =
      scope.names ++ (bindings.map Prod.fst).filter (· ∉ scope.names) := by
  induction bindings generalizing scope with
  | nil => exact (List.append_nil _).symm
  | cons binding rest ih =>
    obtain ⟨name, value⟩ := binding
    obtain ⟨hfresh, hrest⟩ := List.nodup_cons.1 h
    have hset := names_insert scope name [] value
    have hall := ih (scope.insert [name] value) hrest
    by_cases hname : name ∈ scope.names
    · rw [if_pos hname] at hset
      rw [hset] at hall
      rw [List.map_cons, List.filter_cons_of_neg (by simpa using hname)]
      exact hall
    · rw [if_neg hname] at hset
      have hfilter : (rest.map Prod.fst).filter (· ∉ scope.names ++ [name]) =
          (rest.map Prod.fst).filter (· ∉ scope.names) := by
        refine List.filter_congr fun other hother => ?_
        have hne : other ≠ name := fun heq => hfresh (heq ▸ hother)
        simp [hne]
      rw [hset, hfilter, List.append_assoc] at hall
      rw [List.map_cons, List.filter_cons_of_pos (by simpa using hname)]
      exact hall

theorem get?_setAll (scope : Context) (h : (bindings.map Prod.fst).Nodup) (name : String) :
    (scope.setAll bindings).get? name = (bindings.lookup name).or (scope.get? name) := by
  induction bindings generalizing scope with
  | nil => rfl
  | cons binding rest ih =>
    obtain ⟨key, value⟩ := binding
    obtain ⟨hfresh, hrest⟩ := List.nodup_cons.1 h
    have hall := ih (scope.insert [key] value) hrest
    rw [Keyed.lookup_cons_eq_if]
    by_cases hname : name = key
    · subst hname
      rw [Keyed.lookup_eq_none hfresh, get?_insert_self] at hall
      rw [if_pos rfl]
      exact hall
    · rw [get?_insert_of_ne hname] at hall
      rw [if_neg hname]
      exact hall

section

variable {a b : Context}

theorem Distinct.merge (ha : a.Distinct) (b : Context) : (a.merge b).Distinct := ha.setAll b.entries

/-- New names go behind the old ones, in their own order. -/
theorem names_merge (a : Context) (hb : b.Distinct) :
    (a.merge b).names = a.names ++ b.names.filter (· ∉ a.names) :=
  a.names_setAll hb

/-- The right scope is asked first. -/
theorem get?_merge (a : Context) (hb : b.Distinct) (name : String) :
    (a.merge b).get? name = (b.get? name).or (a.get? name) :=
  a.get?_setAll hb name

theorem get?_merge_eq_if (a : Context) (hb : b.Distinct) (name : String) :
    (a.merge b).get? name = if name ∈ b.names then b.get? name else a.get? name := by
  rw [get?_merge a hb]
  split
  · next hname =>
    obtain ⟨value, hvalue⟩ := Option.isSome_iff_exists.1 (Keyed.lookup_isSome_iff.2 hname)
    have hget : b.get? name = some value := hvalue
    rw [hget, Option.some_or]
  · next hname =>
    have hget : b.get? name = none := Keyed.lookup_eq_none hname
    rw [hget, Option.none_or]

/-- A path goes on in the scope that its first part stands for, and this is one of either side. -/
theorem at?_merge (a : Context) (hb : b.Distinct) (name : String) (rest : List String) :
    (a.merge b).at? (name :: rest) =
      if name ∈ b.names then b.at? (name :: rest) else a.at? (name :: rest) := by
  have hget := get?_merge_eq_if a hb name
  cases rest with
  | nil => exact hget
  | cons next rest =>
    rw [at?_cons_cons, at?_cons_cons, at?_cons_cons, hget]
    split <;> rfl

/-- Both sides have the same names in the same order, and give the last word to the last scope. -/
theorem merge_assoc (ha : a.Distinct) (hb : b.Distinct) {c : Context} (hc : c.Distinct) :
    (a.merge b).merge c = a.merge (b.merge c) := by
  have hbc := hb.merge c
  refine eq_of_get? ((ha.merge b).merge c) ?_ fun name => ?_
  · have hfilter : c.names.filter (· ∉ a.names ++ b.names.filter (· ∉ a.names)) =
        (c.names.filter (· ∉ b.names)).filter (· ∉ a.names) := by
      rw [List.filter_filter]
      refine List.filter_congr fun name _ => ?_
      by_cases hname : name ∈ a.names <;> simp [hname]
    calc ((a.merge b).merge c).names
        = (a.names ++ b.names.filter (· ∉ a.names)) ++
            c.names.filter (· ∉ a.names ++ b.names.filter (· ∉ a.names)) := by
          rw [names_merge _ hc, names_merge a hb]
      _ = a.names ++ (b.names ++ c.names.filter (· ∉ b.names)).filter (· ∉ a.names) := by
          rw [hfilter, List.append_assoc, List.filter_append]
      _ = (a.merge (b.merge c)).names := by rw [names_merge a hbc, names_merge b hc]
  · calc ((a.merge b).merge c).get? name
        = (c.get? name).or ((b.get? name).or (a.get? name)) := by
          rw [get?_merge _ hc, get?_merge a hb]
      _ = ((c.get? name).or (b.get? name)).or (a.get? name) := Option.or_assoc.symm
      _ = (a.merge (b.merge c)).get? name := by rw [get?_merge a hbc, get?_merge b hc]

theorem empty_merge (ha : a.Distinct) : empty.merge a = a := by
  obtain ⟨entries⟩ := a
  exact ofList_of_nodup ha

theorem merge_self (ha : a.Distinct) : a.merge a = a := by
  refine eq_of_get? (ha.merge a) ?_ fun name => ?_
  · have hnone : a.names.filter (· ∉ a.names) = [] := by simp
    rw [names_merge a ha, hnone, List.append_nil]
  · rw [get?_merge a ha, Option.or_self]

end

/-- Merging keeps the order of the left names and adds the new ones of the right scope in theirs;
what is under a name is what the right scope has there, or else the left one. Such scopes are a
monoid in which every member is idempotent. -/
theorem merge_is_right_biased_monoid {a b c : Context} (ha : a.Distinct) (hb : b.Distinct)
    (hc : c.Distinct) :
    (a.merge b).Distinct ∧
    (a.merge b).names = a.names ++ b.names.filter (· ∉ a.names) ∧
    (∀ name, (a.merge b).get? name = if name ∈ b.names then b.get? name else a.get? name) ∧
    (∀ name rest, (a.merge b).at? (name :: rest) =
      if name ∈ b.names then b.at? (name :: rest) else a.at? (name :: rest)) ∧
    (a.merge b).merge c = a.merge (b.merge c) ∧
    a.merge empty = a ∧ empty.merge a = a ∧ a.merge a = a := by
  refine ⟨ha.merge b, names_merge a hb, get?_merge_eq_if a hb, at?_merge a hb,
    merge_assoc ha hb hc, ?_, empty_merge ha, merge_self ha⟩
  rfl

/-- The scope under `post` is replaced as a whole, and its title is gone. -/
theorem merge_is_right_biased_monoid_of_posts :
    let left : Context := ⟨[("post", .container ⟨[("title", .str "A")]⟩), ("page", .int 1)]⟩
    let right : Context := ⟨[("last", .int 3), ("post", .container ⟨[("text", .str "B")]⟩)]⟩
    left.Distinct ∧ right.Distinct ∧ (left.merge right).names = ["post", "page", "last"] ∧
      (left.merge right).at? ["post", "title"] = none ∧
      (left.merge right).merge left = left.merge (right.merge left) := by
  intro left right
  have hleft : left.Distinct := by
    change ["post", "page"].Nodup
    decide
  have hright : right.Distinct := by
    change ["last", "post"].Nodup
    decide
  obtain ⟨-, hnames, -, hat, hassoc, -⟩ := merge_is_right_biased_monoid hleft hright hleft
  exact ⟨hleft, hright, hnames, hat "post" ["title"], hassoc⟩

end Context
end PageTemplate
