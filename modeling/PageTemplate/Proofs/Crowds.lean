import Mathlib.Data.Fintype.BigOperators
import Mathlib.Logic.Relation
import PageTemplate.Proofs.Progress

namespace PageTemplate.Network

variable {Task Channel Store ι : Type} [DecidableEq Task] [DecidableEq Channel] [DecidableEq ι]

def Moment.over {net : Network Task Channel Store} (m : Moment net) (store : Store) : Moment net :=
  { m with store := store }

/-- A moment of several networks. One that has not begun has no moment yet; for one that has, the
common store counts and not the one that it left behind with its own last step. -/
structure Crowd (nets : ι → Network Task Channel Store) where
  store : Store
  part : (i : ι) → Option (Moment (nets i))

namespace Crowd

variable {nets : ι → Network Task Channel Store} {c c' : Crowd nets}

def waiting (nets : ι → Network Task Channel Store) (store : Store) : Crowd nets :=
  ⟨store, fun _ => none⟩

inductive Step (opening : (i : ι) → Store → Moment (nets i)) : Crowd nets → Crowd nets → Prop
  | begin {c : Crowd nets} {i : ι} (waits : c.part i = none) :
    Step opening c
      ⟨(opening i c.store).store, Function.update c.part i (some (opening i c.store))⟩
  | move {c : Crowd nets} {i : ι} {m m' : Moment (nets i)} (begun : c.part i = some m)
    (step : Network.Step (m.over c.store) m') :
    Step opening c ⟨m'.store, Function.update c.part i (some m')⟩

abbrev Steps (opening : (i : ι) → Store → Moment (nets i)) : Crowd nets → Crowd nets → Prop :=
  Relation.ReflTransGen (Step opening)

def Finished (c : Crowd nets) : Prop := ∀ i, ∃ m, c.part i = some m ∧ m.Finished

omit [DecidableEq Task] [DecidableEq Channel] in
/-- What holds of the new moment of one network and of the moments of all others. -/
theorem forall_part_update {P : (j : ι) → Moment (nets j) → Prop} {i : ι} {m : Moment (nets i)}
    (hself : P i m) (hothers : ∀ j other, j ≠ i → c.part j = some other → P j other) (j : ι)
    (other : Moment (nets j)) (h : Function.update c.part i (some m) j = some other) :
    P j other := by
  by_cases heq : j = i
  · subst heq
    rw [Function.update_self] at h
    cases h
    exact hself
  · rw [Function.update_of_ne heq] at h
    exact hothers j other heq h

variable {opening : (i : ι) → Store → Moment (nets i)}

/-- As long as each network that has not ended can move, so can the crowd. -/
theorem exists_step (h : ∀ i m, c.part i = some m →
    m.Finished ∨ ∃ next, Network.Step (m.over c.store) next) :
    c.Finished ∨ ∃ next, Step opening c next := by
  by_cases hfinished : c.Finished
  · exact .inl hfinished
  · refine .inr ?_
    obtain ⟨i, hi⟩ := Classical.not_forall.1 hfinished
    cases hpart : c.part i with
    | none => exact ⟨_, .begin hpart⟩
    | some m =>
      rcases h i m hpart with hend | ⟨next, step⟩
      · exact absurd ⟨m, hpart, hend⟩ hi
      · exact ⟨_, .move hpart step⟩

variable [Fintype ι] [Fintype Task] [Fintype Channel] (effort : (i : ι) → (nets i).Effort)
  (whole : ι → Nat)

def due (i : ι) : Option (Moment (nets i)) → Nat
  | none => whole i + 1
  | some m => (effort i).total m

/-- Every step leaves less to be done. -/
theorem Step.total_lt (hwhole : ∀ i store, (effort i).total (opening i store) ≤ whole i)
    (step : Step opening c c') :
    ∑ i, due effort whole i (c'.part i) < ∑ i, due effort whole i (c.part i) := by
  cases step with
  | @begin i waits =>
    have hsum := sum_update (due effort whole) c.part i (some (opening i c.store))
    have hless := hwhole i c.store
    simp only [waits, due] at hsum ⊢
    omega
  | @move i m m' begun step =>
    have hsum := sum_update (due effort whole) c.part i (some m')
    have hless := Network.Step.total_lt (effort i) step
    change (effort i).total m' < (effort i).total m at hless
    simp only [begun, due] at hsum ⊢
    omega

/-- No crowd goes on forever. -/
theorem acc (hwhole : ∀ i store, (effort i).total (opening i store) ≤ whole i) (c : Crowd nets) :
    Acc (fun after before : Crowd nets => Step opening before after) c := by
  induction htotal : ∑ i, due effort whole i (c.part i) using Nat.strongRecOn generalizing c with
  | _ n ih =>
    refine ⟨c, fun c' step => ?_⟩
    have hlt := step.total_lt effort whole hwhole
    exact ih _ (htotal ▸ hlt) c' rfl

end Crowd
end PageTemplate.Network
