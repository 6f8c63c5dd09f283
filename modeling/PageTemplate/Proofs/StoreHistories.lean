import Mathlib
import PageTemplate.Proofs.Merging
import PageTemplate.TemplateLibrary

namespace PageTemplate

namespace Keyed

variable {κ α ω : Type} [DecidableEq κ] (key : ω → κ) (put : α → ω → α) (fresh : α)

/-- Writes made one after the other. Each changes what is under its key; where nothing is, it begins
with something fresh. -/
def writeAll (writes : List ω) (entries : List (κ × α)) : List (κ × α) :=
  writes.foldl (fun entries write =>
    update (key write) (fun old => put (old.getD fresh) write) entries) entries

def history (writes : List ω) (k : κ) : List ω := writes.filter fun write => key write = k

variable {key} {writes : List ω} {k : κ}

theorem history_eq_nil_iff : history key writes k = [] ↔ k ∉ writes.map key := by
  simp [history, List.filter_eq_nil_iff]

theorem history_cons_of_eq {write : ω} (h : key write = k) :
    history key (write :: writes) k = write :: history key writes k :=
  List.filter_cons_of_pos (by simpa using h)

theorem history_cons_of_ne {write : ω} (h : key write ≠ k) :
    history key (write :: writes) k = history key writes k :=
  List.filter_cons_of_neg (by simpa using h)

theorem mem_keys_iff {others : List ω} (h : history key writes k = history key others k) :
    k ∈ writes.map key ↔ k ∈ others.map key := by
  rw [← not_iff_not, ← history_eq_nil_iff, h, history_eq_nil_iff]

variable {entries : List (κ × α)}

theorem mem_keys_writeAll : k ∈ (writeAll key put fresh writes entries).map Prod.fst ↔
    k ∈ entries.map Prod.fst ∨ k ∈ writes.map key := by
  induction writes generalizing entries with
  | nil => simp [writeAll]
  | cons write writes ih =>
    rw [writeAll, List.foldl_cons, ← writeAll, ih, keys_update, List.map_cons, List.mem_cons]
    split
    · next hmem =>
      constructor
      · rintro (hold | hlater)
        · exact .inl hold
        · exact .inr (.inr hlater)
      · rintro (hold | rfl | hlater)
        · exact .inl hold
        · exact .inl hmem
        · exact .inr hlater
    · rw [List.mem_append, List.mem_singleton, or_assoc]

theorem nodup_keys_writeAll (h : (entries.map Prod.fst).Nodup) :
    ((writeAll key put fresh writes entries).map Prod.fst).Nodup := by
  induction writes generalizing entries with
  | nil => exact h
  | cons write writes ih => exact ih (nodup_keys_update _ _ h)

/-- There are as many entries as keys that have been written under. -/
theorem length_writeAll :
    (writeAll key put fresh writes []).length = (writes.map key).dedup.length := by
  have hperm : ((writeAll key put fresh writes []).map Prod.fst).Perm (writes.map key).dedup := by
    refine (List.perm_ext_iff_of_nodup ?_ (List.nodup_dedup _)).2 fun k => ?_
    · exact nodup_keys_writeAll put fresh List.nodup_nil
    · rw [mem_keys_writeAll, List.mem_dedup]
      simp
  rw [← hperm.length_eq, List.length_map]

theorem length_dedup_keys {others : List ω}
    (h : ∀ k, history key writes k = history key others k) :
    (writes.map key).dedup.length = (others.map key).dedup.length := by
  refine List.Perm.length_eq ?_
  refine (List.perm_ext_iff_of_nodup (List.nodup_dedup _) (List.nodup_dedup _)).2 fun k => ?_
  rw [List.mem_dedup, List.mem_dedup, mem_keys_iff (h k)]

variable [BEq κ] [LawfulBEq κ]

/-- Only the writes under a key count for what is found there, and they do in their order. -/
theorem lookup_writeAll : (writeAll key put fresh writes entries).lookup k =
    if k ∈ writes.map key then
      some ((history key writes k).foldl put ((entries.lookup k).getD fresh))
    else entries.lookup k := by
  induction writes generalizing entries with
  | nil => rfl
  | cons write writes ih =>
    rw [writeAll, List.foldl_cons, ← writeAll, ih, lookup_update, List.map_cons]
    by_cases hkey : key write = k
    · subst hkey
      rw [if_pos rfl, history_cons_of_eq rfl, if_pos List.mem_cons_self]
      split
      · rfl
      · next hlater => rw [history_eq_nil_iff.2 hlater]; rfl
    · have hne : ¬ k = key write := fun h => hkey h.symm
      simp only [hne, if_false, history_cons_of_ne hkey, List.mem_cons, false_or]

/-- Writes under different keys can be made in either order. -/
theorem lookup_update_comm {other : κ} (h : k ≠ other) (change change' : Option α → α) (j : κ) :
    (update k change (update other change' entries)).lookup j =
      (update other change' (update k change entries)).lookup j := by
  by_cases hk : j = k
  · subst hk
    simp only [lookup_update, h, if_true, if_false]
  · by_cases hother : j = other
    · subst hother
      simp only [lookup_update, hk, if_true, if_false]
    · simp only [lookup_update, hk, hother, if_false]

end Keyed

/-- The writes of several writers, each of whom makes his own in their order, as they come one after
the other. -/
inductive Interleaves {ω : Type} : List (List ω) → List ω → Prop
  | done {writers : List (List ω)} : (∀ own ∈ writers, own = []) → Interleaves writers []
  | next {writers : List (List ω)} {i : Nat} {write : ω} {rest later : List ω} :
    writers[i]? = some (write :: rest) → Interleaves (writers.set i rest) later →
      Interleaves writers (write :: later)

/-- What is done under one key is an interleaving of what every writer does there. -/
theorem Interleaves.history {κ ω : Type} [DecidableEq κ] {key : ω → κ} {writers : List (List ω)}
    {writes : List ω} (h : Interleaves writers writes) (k : κ) :
    Interleaves (writers.map (Keyed.history key · k)) (Keyed.history key writes k) := by
  induction h with
  | done hdone =>
    refine .done fun own hown => ?_
    obtain ⟨writes, hwrites, rfl⟩ := List.mem_map.1 hown
    rw [hdone writes hwrites]
    rfl
  | @next writers i write rest later hfirst _ ih =>
    rw [List.map_set] at ih
    have hget : (writers.map (Keyed.history key · k))[i]? =
        some (Keyed.history key (write :: rest) k) := by
      rw [List.getElem?_map, hfirst]
      rfl
    by_cases hkey : key write = k
    · rw [Keyed.history_cons_of_eq hkey] at hget ⊢
      exact .next hget ih
    · -- the writer has made a write, but not under this key
      rw [Keyed.history_cons_of_ne hkey] at hget ⊢
      obtain ⟨hi, hown⟩ := List.getElem?_eq_some_iff.1 hget
      rwa [← hown, List.set_getElem_self] at ih

namespace TemplateLibrary

inductive Write
  | declare (key : String)
  | insert (key : String) (node : Node)

def Write.key : Write → String
  | .declare key | .insert key _ => key

def Write.nodes : Write → List Node
  | .declare _ => []
  | .insert _ node => [node]

def write (library : TemplateLibrary) : Write → TemplateLibrary
  | .declare key => library.declare key
  | .insert key node => library.append key [node]

def writeAll (library : TemplateLibrary) (writes : List Write) : TemplateLibrary :=
  writes.foldl write library

/-- Nobody who looks for templates can tell the libraries apart. -/
def Alike (a b : TemplateLibrary) : Prop := (∀ key, a.get? key = b.get? key) ∧ a.size = b.size

variable {library : TemplateLibrary} {writes others : List Write}

/-- Declaring a key is adding no nodes to it. -/
theorem write_eq (library : TemplateLibrary) (write : Write) :
    library.write write = library.append write.key write.nodes := by
  cases write <;> rfl

theorem templates_writeAll : (library.writeAll writes).templates =
    Keyed.writeAll Write.key (fun nodes write => nodes ++ write.nodes) [] writes
      library.templates := by
  induction writes generalizing library with
  | nil => rfl
  | cons write writes ih =>
    rw [writeAll, List.foldl_cons, ← writeAll, ih, write_eq]
    rfl

theorem get?_writeAll (writes : List Write) (key : String) :
    (empty.writeAll writes).get? key =
      if key ∈ writes.map Write.key then
        some ((Keyed.history Write.key writes key).flatMap Write.nodes)
      else none := by
  rw [get?, templates_writeAll, Keyed.lookup_writeAll, List.foldl_append_eq_append]
  rfl

theorem size_writeAll (writes : List Write) :
    (empty.writeAll writes).size = (writes.map Write.key).dedup.length := by
  rw [size, templates_writeAll]
  exact Keyed.length_writeAll _ _

theorem write_comm {first second : Write} (h : first.key ≠ second.key) (library : TemplateLibrary) :
    ((library.write first).write second).Alike ((library.write second).write first) := by
  simp only [write_eq]
  refine ⟨fun key => Keyed.lookup_update_comm h.symm _ _ key, ?_⟩
  exact (Keyed.update_comm h.symm _ _ library.templates).length_eq

theorem alike_of_history
    (h : ∀ key, Keyed.history Write.key writes key = Keyed.history Write.key others key) :
    (empty.writeAll writes).Alike (empty.writeAll others) := by
  refine ⟨fun key => ?_, ?_⟩
  · rw [get?_writeAll, get?_writeAll, h]
    exact if_congr (Keyed.mem_keys_iff (h key)) rfl rfl
  · rw [size_writeAll, size_writeAll, Keyed.length_dedup_keys h]

end TemplateLibrary

namespace ExportStore

structure Write where
  file : Path
  name : List String
  value : Value

def Write.key (write : Write) : List Path.Component := write.file.components

def Write.binding (write : Write) : Binding := (write.name, write.value)

def write (store : ExportStore) (write : Write) : ExportStore :=
  store.insert write.file write.name write.value

def writeAll (store : ExportStore) (writes : List Write) : ExportStore :=
  writes.foldl write store

/-- Nobody who looks for exports can tell the stores apart. -/
def Alike (a b : ExportStore) : Prop :=
  (∀ file, a.get file = b.get file ∧ a.contains file = b.contains file) ∧ a.size = b.size

variable {store a b : ExportStore} {writes others : List Write}

theorem files_writeAll : (store.writeAll writes).files =
    Keyed.writeAll Write.key (fun scope write => scope.insert write.name write.value) .empty writes
      store.files := by
  induction writes generalizing store with
  | nil => rfl
  | cons write writes ih =>
    rw [writeAll, List.foldl_cons, ← writeAll, ih]
    rfl

theorem exported?_writeAll (writes : List Write) (file : Path) :
    (empty.writeAll writes).exported? file =
      if file.components ∈ writes.map Write.key then
        some (Context.empty.bindAll
          ((Keyed.history Write.key writes file.components).map Write.binding))
      else none := by
  rw [exported?, files_writeAll, Keyed.lookup_writeAll, Context.bindAll, List.foldl_map]
  rfl

theorem get_writeAll (writes : List Write) (file : Path) :
    (empty.writeAll writes).get file =
      Context.empty.bindAll
        ((Keyed.history Write.key writes file.components).map Write.binding) := by
  rw [get_eq, exported?_writeAll]
  split
  · rfl
  · next hnone => rw [Keyed.history_eq_nil_iff.2 hnone]; rfl

theorem contains_writeAll {file : Path} : (empty.writeAll writes).contains file = true ↔
    ∃ write ∈ writes, write.file.components = file.components := by
  have hkeys : file.components ∈ writes.map Write.key ↔
      ∃ write ∈ writes, write.file.components = file.components := List.mem_map
  rw [contains, ← exported?, exported?_writeAll, ← hkeys]
  split
  · next hmem => exact iff_of_true rfl hmem
  · next hnone => exact iff_of_false Bool.false_ne_true hnone

theorem size_writeAll (writes : List Write) :
    (empty.writeAll writes).size = (writes.map Write.key).dedup.length := by
  rw [size, files_writeAll]
  exact Keyed.length_writeAll _ _

theorem alike_of_exported? (h : ∀ file, a.exported? file = b.exported? file)
    (hsize : a.size = b.size) : a.Alike b :=
  ⟨fun file => ⟨congrArg (·.getD .empty) (h file), congrArg Option.isSome (h file)⟩, hsize⟩

theorem write_comm {first second : Write}
    (h : first.file.components ≠ second.file.components) (store : ExportStore) :
    ((store.write first).write second).Alike ((store.write second).write first) :=
  alike_of_exported? (fun file => Keyed.lookup_update_comm h.symm _ _ file.components)
    (Keyed.update_comm h.symm _ _ store.files).length_eq

theorem alike_of_history
    (h : ∀ key, Keyed.history Write.key writes key = Keyed.history Write.key others key) :
    (empty.writeAll writes).Alike (empty.writeAll others) := by
  refine alike_of_exported? (fun file => ?_) ?_
  · rw [exported?_writeAll, exported?_writeAll, h]
    exact if_congr (Keyed.mem_keys_iff (h file.components)) rfl rfl
  · rw [size_writeAll, size_writeAll, Keyed.length_dedup_keys h]

end ExportStore

/-- Stores keep the history of every key. After any writes, however many writers they come from, a
library has under a key the nodes that have been added there in the order of their writes, if the
key has been written under at all; and a store of exports has for a file the bindings that have been
made in its scope in their order, paths with the same components being the same file. What is done
under a key by interleaved writers is interleaved from what each of them does there, and the
histories of the keys are all that counts, so writes under different keys can change places. -/
theorem stores_keep_histories :
    (∀ writes : List TemplateLibrary.Write,
      let library := TemplateLibrary.empty.writeAll writes
      (∀ key, library.get? key =
        if key ∈ writes.map TemplateLibrary.Write.key then
          some ((Keyed.history TemplateLibrary.Write.key writes key).flatMap
            TemplateLibrary.Write.nodes)
        else none) ∧
      library.size = (writes.map TemplateLibrary.Write.key).dedup.length ∧
      ∀ others : List TemplateLibrary.Write,
        (∀ key, Keyed.history TemplateLibrary.Write.key writes key =
          Keyed.history TemplateLibrary.Write.key others key) →
        library.Alike (TemplateLibrary.empty.writeAll others)) ∧
    (∀ writes : List ExportStore.Write,
      let store := ExportStore.empty.writeAll writes
      (∀ file, store.get file =
          Context.empty.bindAll ((Keyed.history ExportStore.Write.key writes file.components).map
            ExportStore.Write.binding) ∧
        (store.contains file = true ↔
          ∃ write ∈ writes, write.file.components = file.components)) ∧
      store.size = (writes.map ExportStore.Write.key).dedup.length ∧
      ∀ others : List ExportStore.Write,
        (∀ key, Keyed.history ExportStore.Write.key writes key =
          Keyed.history ExportStore.Write.key others key) →
        store.Alike (ExportStore.empty.writeAll others)) ∧
    (∀ writers writes, Interleaves writers writes → ∀ key,
      Interleaves (writers.map (Keyed.history TemplateLibrary.Write.key · key))
        (Keyed.history TemplateLibrary.Write.key writes key)) ∧
    (∀ writers writes, Interleaves writers writes → ∀ key,
      Interleaves (writers.map (Keyed.history ExportStore.Write.key · key))
        (Keyed.history ExportStore.Write.key writes key)) ∧
    (∀ (library : TemplateLibrary) (first second : TemplateLibrary.Write),
      first.key ≠ second.key →
        ((library.write first).write second).Alike ((library.write second).write first)) ∧
    ∀ (store : ExportStore) (first second : ExportStore.Write),
      first.file.components ≠ second.file.components →
        ((store.write first).write second).Alike ((store.write second).write first) := by
  refine ⟨fun writes => ⟨TemplateLibrary.get?_writeAll writes,
      TemplateLibrary.size_writeAll writes, fun others hsame => ?_⟩,
    fun writes => ⟨fun file => ⟨ExportStore.get_writeAll writes file,
      ExportStore.contains_writeAll⟩, ExportStore.size_writeAll writes, fun others hsame => ?_⟩,
    fun writers writes hwrites key => hwrites.history key,
    fun writers writes hwrites key => hwrites.history key,
    fun library first second hkey => TemplateLibrary.write_comm hkey library,
    fun store first second hkey => ExportStore.write_comm hkey store⟩
  · exact TemplateLibrary.alike_of_history hsame
  · exact ExportStore.alike_of_history hsame

/-- Three ways to write one path, and a binding that gives way to a scope. -/
example : (ExportStore.empty.writeAll [⟨.ofText "a//b", ["post"], .int 1⟩,
    ⟨.ofText "c", ["post"], .int 2⟩, ⟨.ofText "a/./b", ["post", "title"], .int 3⟩]).get
      (.ofText "a/b/") =
      ⟨[("post", .container ⟨[("title", .int 3)]⟩)]⟩ := by
  cbv

end PageTemplate
