namespace PageTemplate.Keyed

variable {κ α β : Type} [DecidableEq κ]

def update (key : κ) (change : Option α → α) : List (κ × α) → List (κ × α)
  | [] => [(key, change none)]
  | (k, a) :: rest =>
    if k = key then (k, change (some a)) :: rest else (k, a) :: update key change rest

def set (key : κ) (value : α) : List (κ × α) → List (κ × α) := update key fun _ => value

section

-- keys such as lists of components come with a test of their own
variable [BEq κ] [LawfulBEq κ]

theorem lookup_cons_eq_if (k j : κ) (a : α) (rest : List (κ × α)) :
    ((j, a) :: rest).lookup k = if k = j then some a else rest.lookup k := by
  by_cases h : k = j
  · simp [h]
  · simp [List.lookup_cons, h, beq_eq_false_iff_ne.mpr h]

theorem lookup_map (f : α → β) (entries : List (κ × α)) (key : κ) :
    (entries.map (Prod.map id f)).lookup key = (entries.lookup key).map f := by
  induction entries with
  | nil => rfl
  | cons entry rest ih =>
    obtain ⟨j, a⟩ := entry
    rw [List.map_cons, Prod.map_apply, id, lookup_cons_eq_if, lookup_cons_eq_if, ih]
    split <;> rfl

theorem lookup_update (key : κ) (change : Option α → α) (entries : List (κ × α)) (k : κ) :
    (update key change entries).lookup k =
      if k = key then some (change (entries.lookup key)) else entries.lookup k := by
  induction entries with
  | nil => simp only [update, lookup_cons_eq_if, List.lookup_nil]
  | cons entry rest ih =>
    obtain ⟨j, a⟩ := entry
    by_cases hj : j = key
    · subst hj
      by_cases h : k = j <;> simp [update, lookup_cons_eq_if, h]
    · have hkey : ¬ key = j := fun h => hj h.symm
      rw [update, if_neg hj, lookup_cons_eq_if, ih]
      by_cases hk : k = j
      · simp [hk, hj]
      · simp [hk, hkey, lookup_cons_eq_if]

end

/-- The keys stay in order, and a new one is added at the end. -/
theorem keys_update (key : κ) (change : Option α → α) (entries : List (κ × α)) :
    (update key change entries).map Prod.fst =
      if key ∈ entries.map Prod.fst then entries.map Prod.fst
      else entries.map Prod.fst ++ [key] := by
  induction entries with
  | nil => simp [update]
  | cons entry rest ih =>
    obtain ⟨j, a⟩ := entry
    by_cases hj : j = key
    · subst hj
      simp [update]
    · have hkey : ¬ key = j := fun h => hj h.symm
      rw [update, if_neg hj, List.map_cons, ih]
      by_cases h : key ∈ rest.map Prod.fst <;> simp [h, hkey]

theorem forall_update {p : α → Prop} {key : κ} {change : Option α → α} {entries : List (κ × α)}
    (hchange : ∀ old, (∀ a, old = some a → p a) → p (change old))
    (h : ∀ entry ∈ entries, p entry.2) : ∀ entry ∈ update key change entries, p entry.2 := by
  induction entries with
  | nil => simpa [update] using hchange none
  | cons entry rest ih =>
    obtain ⟨j, a⟩ := entry
    obtain ⟨ha, hrest⟩ := List.forall_mem_cons.1 h
    rw [update]
    split
    · refine List.forall_mem_cons.2 ⟨hchange _ fun b hb => ?_, hrest⟩
      rwa [← Option.some.inj hb]
    · exact List.forall_mem_cons.2 ⟨ha, ih hrest⟩

/-- A change of what the entries are turned into is a change of the entries themselves. -/
theorem map_update (f : α → β) {change : Option α → α} {change' : Option β → β}
    (h : ∀ old, f (change old) = change' (old.map f)) (key : κ) (entries : List (κ × α)) :
    (update key change entries).map (Prod.map id f) =
      update key change' (entries.map (Prod.map id f)) := by
  induction entries with
  | nil => simp [update, h]
  | cons entry rest ih =>
    obtain ⟨j, a⟩ := entry
    by_cases hj : j = key
    · simp [update, hj, h]
    · simp [update, hj, ih]

/-- What is put under a new key comes last. -/
theorem update_of_not_mem {key : κ} (change : Option α → α) {entries : List (κ × α)}
    (h : key ∉ entries.map Prod.fst) :
    update key change entries = entries ++ [(key, change none)] := by
  induction entries with
  | nil => rfl
  | cons entry rest ih =>
    obtain ⟨hne, hrest⟩ := not_or.1 (mt List.mem_cons.2 h)
    rw [update, if_neg fun heq => hne heq.symm, ih hrest]
    rfl

/-- Two changes under one key are one change. -/
theorem update_update (key : κ) (first second : Option α → α) (entries : List (κ × α)) :
    update key second (update key first entries) =
      update key (fun old => second (some (first old))) entries := by
  induction entries with
  | nil => simp [update]
  | cons entry rest ih =>
    obtain ⟨j, a⟩ := entry
    by_cases hj : j = key
    · simp [update, hj]
    · simp only [update, if_neg hj, ih]

/-- Changes under different keys can be made in either order, but for the place of new keys. -/
theorem update_comm {key other : κ} (h : key ≠ other) (change change' : Option α → α)
    (entries : List (κ × α)) :
    (update key change (update other change' entries)).Perm
      (update other change' (update key change entries)) := by
  induction entries with
  | nil =>
    simp only [update, if_neg h, if_neg h.symm]
    exact List.Perm.swap _ _ _
  | cons entry rest ih =>
    obtain ⟨j, a⟩ := entry
    by_cases hkey : j = key
    · subst hkey
      simp [update, h]
    · by_cases hother : j = other
      · subst hother
        simp [update, hkey]
      · simp only [update, if_neg hkey, if_neg hother]
        exact ih.cons _

end PageTemplate.Keyed
