import PageTemplate.Proofs.Network

namespace PageTemplate.Network

variable {Task Channel Store : Type} [DecidableEq Task] [DecidableEq Channel]
  {net : Network Task Channel Store}

namespace Moment

variable {m m' : Moment net} {t : Task}

def Follows (t : Task) (m m' : Moment net) : Move net.Item (net.State t) → Prop
  | .give _ _ next =>
    (m'.status t = .running next ∨ m'.status t = .ended none) ∧ m'.heard t = m.heard t
  | .take w next atEnd =>
    (∃ item, m'.status t = .running (next item) ∧
        m'.heard t = Function.update (m.heard t) w (m.heard t w ++ [item])) ∨
      m'.status t = .running atEnd ∧ m'.heard t = m.heard t
  | .turn next => m'.status t = .running next ∧ m'.heard t = m.heard t
  | .fail cause => m'.status t = .failing cause ∧ m'.heard t = m.heard t
  | .stop => m'.status t = .ended none ∧ m'.heard t = m.heard t

/-- A task moves as its program says, or it ends without a move of its program: because it has
failed, or because the flag is up. -/
inductive Acts (t : Task) (m m' : Moment net) : Prop
  | moves {s : net.State t} {move : Move net.Item (net.State t)} (running : m.status t = .running s)
    (moves : net.move t m.store s = (move, m'.store)) (follows : Follows t m m' move) : Acts t m m'
  | falls {cause : Failure} (failing : m.status t = .failing cause)
    (stands : m'.status t = .ended (some cause)) (same : m'.heard t = m.heard t)
    (store : m'.store = m.store) : Acts t m m'
  | quits {s : net.State t} (running : m.status t = .running s) (raised : m'.raised = true)
    (stands : m'.status t = .ended none) (same : m'.heard t = m.heard t)
    (store : m'.store = m.store) : Acts t m m'

structure Apart (t : Task) (m m' : Moment net) : Prop where
  status : ∀ q, q ≠ t → m'.status q = m.status q
  heard : ∀ q, q ≠ t → m'.heard q = m.heard q
  raised : m.raised = true → m'.raised = true

omit [DecidableEq Channel] in
theorem heard_congr (hsent : m'.sent = m.sent) (htaken : m'.taken = m.taken) :
    m'.heard = m.heard := by
  funext q w
  rw [heard, heard, hsent, htaken]

/-- A step moves the task whose status it updates. The others have heard what they had heard. -/
theorem acts_of_update {status : Status (net.State t)}
    (hstatus : m'.status = Function.update m.status t status)
    (hheard : ∀ q, q ≠ t → m'.heard q = m.heard q) (hraised : m.raised = true → m'.raised = true)
    (h : m'.status t = status → Acts t m m') : ∃ t, Acts t m m' ∧ Apart t m m' := by
  refine ⟨t, h ?_, fun q hq => ?_, hheard, hraised⟩
  · rw [hstatus, Function.update_self]
  · rw [hstatus, Function.update_of_ne hq]

end Moment

open Moment

variable {m m' : Moment net}

/-- Every step is one of one task. -/
theorem Step.acts (howns : ∀ t store s, Owns t (net.move t store s).1)
    (htaken : ∀ w, m.taken w ≤ (m.sent w).length) (step : Step m m') :
    ∃ t, Acts t m m' ∧ Apart t m m' := by
  cases step with
  | @give t s next w item store running moves room wanted =>
    exact acts_of_update rfl (fun q _ => heard_give (htaken w) q _ _) id fun hself =>
      .moves running moves ⟨.inl hself, heard_give (htaken w) t _ _⟩
  | @lose t r s next w item store running moves reads gone =>
    exact acts_of_update rfl (fun q _ => congrFun (heard_congr rfl rfl) q) id fun hself =>
      .moves running moves ⟨.inr hself, congrFun (heard_congr rfl rfl) t⟩
  | @take t writer s atEnd w next item store running moves waiting =>
    have hreader := howns t m.store s
    rw [moves] at hreader
    refine acts_of_update rfl (fun q hq => ?_) id fun hself => .moves running moves
      (.inl ⟨item, hself, heard_take hreader waiting _ _⟩)
    -- only the reader of the channel notices that something has been taken out of it
    funext v
    by_cases hv : v = w
    · subst hv
      have hother : net.reader v ≠ some q := fun heq =>
        hq (Option.some.inj (heq.symm.trans hreader))
      rw [heard, heard, if_neg hother, if_neg hother]
    · simp only [heard, Function.update_of_ne hv]
  | @atEnd t s atEnd w next store running moves hend calm =>
    exact acts_of_update rfl (fun q _ => congrFun (heard_congr rfl rfl) q) id fun hself =>
      .moves running moves (.inr ⟨hself, congrFun (heard_congr rfl rfl) t⟩)
  | @turn t s next store running moves =>
    exact acts_of_update rfl (fun q _ => congrFun (heard_congr rfl rfl) q) id fun hself =>
      .moves running moves ⟨hself, congrFun (heard_congr rfl rfl) t⟩
  | @fail t s cause store running moves =>
    exact acts_of_update rfl (fun q _ => congrFun (heard_congr rfl rfl) q) (fun _ => rfl)
      fun hself => .moves running moves ⟨hself, congrFun (heard_congr rfl rfl) t⟩
  | @stop t s store running moves =>
    exact acts_of_update rfl (fun q _ => congrFun (heard_congr rfl rfl) q) id fun hself =>
      .moves running moves ⟨hself, congrFun (heard_congr rfl rfl) t⟩
  | @fall t cause failing =>
    exact acts_of_update rfl (fun q _ => congrFun (heard_congr rfl rfl) q) id fun hself =>
      .falls failing hself (congrFun (heard_congr rfl rfl) t) rfl
  | @quit t s running raised =>
    exact acts_of_update rfl (fun q _ => congrFun (heard_congr rfl rfl) q) id fun hself =>
      .quits running raised hself (congrFun (heard_congr rfl rfl) t) rfl

/-- Only a program changes the store. -/
theorem Moment.Acts.store {t : Task} (h : Acts t m m') :
    m'.store = m.store ∨ ∃ s, m'.store = (net.move t m.store s).2 := by
  cases h with
  | @moves s move running moves follows => exact .inr ⟨s, (congrArg Prod.snd moves).symm⟩
  | falls _ _ _ store | quits _ _ _ _ store => exact .inl store

end PageTemplate.Network
