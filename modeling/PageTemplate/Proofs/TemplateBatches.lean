import Mathlib
import PageTemplate.Proofs.Crowds
import PageTemplate.Proofs.Kept
import PageTemplate.Proofs.TemplateKeys
import PageTemplate.Site

namespace PageTemplate.TemplateJob

open Network Stages

section Log

variable {ι : Type} (log : List (ι × Node)) (p : ι → Prop) [DecidablePred p]

/-- The trees of a log that some of its writers have put there. -/
def written : List Node := (log.filter fun entry => p entry.1).map Prod.snd

variable {log}

theorem written_append_of_pos {i : ι} (h : p i) (nodes : List Node) :
    written (log ++ nodes.map (i, ·)) p = written log p ++ nodes := by
  have hall : ∀ entry ∈ nodes.map (i, ·), decide (p entry.1) = true :=
    List.forall_mem_map.2 fun _ _ => decide_eq_true h
  rw [written, List.filter_append, List.filter_eq_self.2 hall, List.map_append, List.map_map]
  exact congrArg (written log p ++ ·) (List.map_id nodes)

theorem written_append_of_neg {i : ι} (h : ¬p i) (nodes : List Node) :
    written (log ++ nodes.map (i, ·)) p = written log p := by
  have hnone : ∀ entry ∈ nodes.map (i, ·), ¬decide (p entry.1) = true :=
    List.forall_mem_map.2 fun _ _ hp => h (of_decide_eq_true hp)
  rw [written, List.filter_append, List.filter_eq_nil_iff.2 hnone, List.append_nil, written]

variable {p}

theorem written_eq_nil (h : ∀ i, p i → ∀ entry ∈ log, entry.1 ≠ i) : written log p = [] := by
  refine List.map_eq_nil_iff.2 (List.filter_eq_nil_iff.2 fun entry hentry hp => ?_)
  exact h entry.1 (of_decide_eq_true hp) entry hentry rfl

end Log

variable {ι : Type} [DecidableEq ι] {jobs : ι → TemplateJob}
  {c c' : Crowd fun i => (jobs i).network} {log : List (ι × Node)}

/-- The library is made from a log: each template has its own trees written there, and under a key
that has been begun are the trees of all templates that have it. There are no other keys. -/
structure Shelving (c : Crowd fun i => (jobs i).network) (log : List (ι × Node)) : Prop where
  valid : ∀ i m, c.part i = some m → (m.over c.store).Valid Fit
  kept : ∀ i m, c.part i = some m → HasKept (written log (· = i)) (m.over c.store)
  begun : ∀ entry ∈ log, (c.part entry.1).isSome
  shelved : ∀ i, (c.part i).isSome →
    c.store.get? (jobs i).key = some (written log fun j => (jobs j).key = (jobs i).key)
  others : ∀ key, (∀ i, (c.part i).isSome → key ≠ (jobs i).key) → c.store.get? key = none

theorem valid_over {job : TemplateJob} {m : Moment job.network} {library : TemplateLibrary}
    (h : (m.over library).Valid Fit) (later : TemplateLibrary) : (m.over later).Valid Fit :=
  ⟨trivial, h.taken_le, h.writers, h.faithful, h.raised⟩

/-- Under a key that has not been begun the log has nothing either. -/
theorem Shelving.getD_get? (h : Shelving c log) (key : String) :
    (c.store.get? key).getD [] = written log fun j => (jobs j).key = key := by
  by_cases hbegun : ∃ i, (c.part i).isSome ∧ (jobs i).key = key
  · obtain ⟨i, hi, rfl⟩ := hbegun
    rw [h.shelved i hi, Option.getD_some]
  · have hnone : ∀ i, (c.part i).isSome → key ≠ (jobs i).key := fun i hi hkey =>
      hbegun ⟨i, hi, hkey.symm⟩
    rw [h.others key hnone, written_eq_nil]
    · rfl
    · rintro i rfl entry hentry rfl
      exact hnone _ (h.begun entry hentry) rfl

/-- A template begins or goes on. What it puts under its key it writes into the log. -/
theorem Shelving.of_update (h : Shelving c log) {i : ι} {m : Moment (jobs i).network}
    (nodes : List Node) (hvalid : m.Valid Fit) (hkept : HasKept (written log (· = i) ++ nodes) m)
    (hget : ∀ key, m.store.get? key = if key = (jobs i).key then
      some ((c.store.get? key).getD [] ++ nodes) else c.store.get? key) :
    Shelving (⟨m.store, Function.update c.part i (some m)⟩ : Crowd fun i => (jobs i).network)
      (log ++ nodes.map (i, ·)) := by
  -- who has begun stays begun
  have hbegun {j : ι} (hj : (c.part j).isSome) :
      (Function.update c.part i (some m) j).isSome := by
    by_cases heq : j = i
    · subst heq
      rw [Function.update_self]
      rfl
    · rwa [Function.update_of_ne heq]
  constructor
  case valid =>
    exact Crowd.forall_part_update hvalid fun j other _ hj => valid_over (h.valid j other hj) _
  case kept =>
    refine Crowd.forall_part_update ?_ fun j other hne hj => ?_
    · rw [written_append_of_pos (· = i) rfl]
      exact hkept
    · rw [written_append_of_neg (· = j) hne.symm]
      exact h.kept j other hj
  case begun =>
    refine List.forall_mem_append.2 ⟨fun entry hentry => hbegun (h.begun entry hentry), ?_⟩
    refine List.forall_mem_map.2 fun node _ => ?_
    dsimp only
    rw [Function.update_self]
    rfl
  case shelved =>
    intro j hj
    dsimp only at hj ⊢
    rw [hget]
    -- templates that share the key get the trees put behind theirs
    by_cases hkey : (jobs j).key = (jobs i).key
    · rw [if_pos hkey, h.getD_get?,
        written_append_of_pos (fun k => (jobs k).key = (jobs j).key) hkey.symm]
    · rw [if_neg hkey, written_append_of_neg (fun k => (jobs k).key = (jobs j).key) (Ne.symm hkey)]
      have hne : j ≠ i := fun heq => hkey (heq ▸ rfl)
      rw [Function.update_of_ne hne] at hj
      exact h.shelved j hj
  case others =>
    intro key hothers
    dsimp only at hothers ⊢
    have hself := hothers i
    rw [Function.update_self] at hself
    rw [hget, if_neg (hself rfl)]
    exact h.others key fun j hj => hothers j (hbegun hj)

theorem Shelving.step (h : Shelving c log) (step : Crowd.Step (fun i => (jobs i).opening) c c') :
    ∃ later, Shelving c' later := by
  cases step with
  | @begin i waits =>
    have hnone : written log (· = i) = [] := by
      refine written_eq_nil fun j hj entry hentry hown => ?_
      have hbegun := h.begun entry hentry
      rw [hown, hj, waits] at hbegun
      cases hbegun
    refine ⟨_, h.of_update [] (valid_opening c.store) ?_ fun key => ?_⟩
    · rw [hnone]
      exact hasKept_opening c.store
    · exact (TemplateLibrary.get?_append _ _ _ _).trans (by split <;> simp [*])
  | @move i m m' begun step =>
    have hvalid := h.valid i m begun
    rcases (h.kept i m begun).step hvalid step with ⟨hkept, hsame⟩ | ⟨node, hkept, hadded⟩
    · refine ⟨_, h.of_update [] (hvalid.step (jobs i).sound step) ?_ fun key => ?_⟩
      · rw [List.append_nil]
        exact hkept
      · rw [hsame]
        split
        · next hkey =>
          have hshelved := h.shelved i (begun ▸ rfl)
          rw [hkey]
          exact hshelved.trans (by rw [hshelved, Option.getD_some, List.append_nil])
        · rfl
    · refine ⟨_, h.of_update [node] (hvalid.step (jobs i).sound step) hkept fun key => ?_⟩
      rw [hadded, TemplateLibrary.get?_append]
      split
      · next hkey => rw [hkey]; rfl
      · rfl

theorem Shelving.steps (h : Shelving c log)
    (steps : Crowd.Steps (fun i => (jobs i).opening) c c') : ∃ later, Shelving c' later := by
  induction steps with
  | refl => exact ⟨log, h⟩
  | tail _ step ih =>
    obtain ⟨later, hlater⟩ := ih
    exact hlater.step step

/-- Until all have ended somebody can move. -/
theorem Shelving.progress (h : Shelving c log) :
    c.Finished ∨ ∃ next, Crowd.Step (fun i => (jobs i).opening) c next :=
  Crowd.exists_step fun i m hpart => TemplateJob.progress (h.valid i m hpart)

theorem Shelving.read (h : Shelving c log) {i : ι} {m : Moment (jobs i).network}
    (hpart : c.part i = some m) (hended : ∀ t, m.status t = .ended none) :
    Template.read (jobs i).source = .ok (written log (· = i)) :=
  (h.kept i m hpart).whole (h.valid i m hpart) hended

def AllDone (c : Crowd fun i => (jobs i).network) : Prop :=
  ∀ i, ∃ m, c.part i = some m ∧ (jobs i).Ends m (.ok ())

omit [DecidableEq ι] in
theorem AllDone.isSome (h : AllDone c) (i : ι) : (c.part i).isSome := by
  obtain ⟨m, hpart, -⟩ := h i
  rw [hpart]
  rfl

section Batch

variable {disk : Disk} {root path : Path} {capacity : Nat} {hcapacity : 0 < capacity}
  {files : List Path} {job : TemplateJob}

end Batch

end PageTemplate.TemplateJob
