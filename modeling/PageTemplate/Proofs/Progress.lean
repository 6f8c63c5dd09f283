import Mathlib.Algebra.BigOperators.Group.Finset.Basic
import Mathlib.Data.Fintype.Basic
import PageTemplate.Proofs.Network

/-!
Every run of a network comes to its end. Where data flows one way, a task that waits for another
one waits for a task nearer to an end of the network, so somebody can always move; and a step leaves
less to be done.
-/

namespace PageTemplate.Network

variable {Task Channel Store : Type} [DecidableEq Task] [DecidableEq Channel]
  {net : Network Task Channel Store} {Fit : Store → Prop} {m : Moment net}

/-- Data flows one way: from each task to deeper ones, with one input for each. -/
structure Layered (net : Network Task Channel Store) (depth : Task → Nat) (deepest : Nat) :
    Prop where
  capacity : ∀ w, 0 < net.capacity w
  single : ∀ {t : Task} {v w : Channel}, net.reader v = some t → net.reader w = some t → v = w
  deeper : ∀ {t r : Task} {w : Channel}, net.writes t w → net.reader w = some r → depth t < depth r
  bounded : ∀ t, depth t ≤ deepest

namespace Moment

def Roomy (m : Moment net) : Prop :=
  ∀ t s w item next store, m.status t = .running s →
    net.move t m.store s = (.give w item next, store) → net.reader w = none →
      (m.sent w).length < m.taken w + net.capacity w

/-- Nothing holds a task up. One that gives waits while the channel is full and its reader is still
there, one that takes waits while the channel is empty and a writer is still there, and neither goes
on waiting when the flag is up. -/
def Able (m : Moment net) (t : Task) : Prop :=
  match m.status t with
  | .ended _ => False
  | .failing _ => True
  | .running s =>
    match (net.move t m.store s).1 with
    | .give w _ _ =>
      m.raised = true ∨ (m.sent w).length < m.taken w + net.capacity w ∨
        ∃ r, net.reader w = some r ∧ (m.status r).hasEnded = true
    | .take w _ _ =>
      m.raised = true ∨ m.taken w < (m.sent w).length ∨
        ∀ q, net.writes q w → (m.status q).hasEnded = true
    | .turn _ | .fail _ | .stop => True

/-- A task that is not held up has a step to take, and the others stand as they did. -/
theorem Able.step {t : Task} (h : m.Able t) (htaken : ∀ w, m.taken w ≤ (m.sent w).length) :
    ∃ next, Step m next ∧ ∀ q, q ≠ t → next.status q = m.status q := by
  have hothers {status : Status (net.State t)} :
      ∀ q, q ≠ t → Function.update m.status t status q = m.status q :=
    fun q hq => Function.update_of_ne hq _ _
  unfold Able at h
  cases hstatus : m.status t with
  | ended cause =>
    rw [hstatus] at h
    exact h.elim
  | failing cause => exact ⟨_, .fall hstatus, hothers⟩
  | running s =>
    rcases hmove : net.move t m.store s with ⟨move, store⟩
    simp only [hstatus, hmove] at h
    cases move with
    | turn next => exact ⟨_, .turn hstatus hmove, hothers⟩
    | fail cause => exact ⟨_, .fail hstatus hmove, hothers⟩
    | stop => exact ⟨_, .stop hstatus hmove, hothers⟩
    | give w item next =>
      -- an item for a task that has ended is lost, whether there is room for it or not
      by_cases hgone : ∃ r, net.reader w = some r ∧ (m.status r).hasEnded = true
      · obtain ⟨r, hreader, hended⟩ := hgone
        exact ⟨_, .lose hstatus hmove hreader hended, hothers⟩
      have hwanted : ∀ r, net.reader w = some r → (m.status r).hasEnded = false :=
        fun r hr => Bool.eq_false_iff.2 fun hended => hgone ⟨r, hr, hended⟩
      rcases h with hraised | hroom | hlost
      · exact ⟨_, .quit hstatus hraised, hothers⟩
      · exact ⟨_, .give hstatus hmove hroom hwanted, hothers⟩
      · exact absurd hlost hgone
    | take w next atEnd =>
      by_cases hraised : m.raised = true
      · exact ⟨_, .quit hstatus hraised, hothers⟩
      by_cases hwaiting : m.taken w < (m.sent w).length
      · exact ⟨_, .take hstatus hmove (List.getElem?_eq_getElem hwaiting), hothers⟩
      have hended := (h.resolve_left hraised).resolve_left hwaiting
      have hover : m.Over w := ⟨Nat.le_antisymm (htaken w) (Nat.le_of_not_lt hwaiting), hended⟩
      exact ⟨_, .atEnd hstatus hmove hover (Bool.eq_false_iff.2 hraised), hothers⟩

/-- Nothing is taken out of a channel that has not been put in. -/
theorem taken_le_of_step {m' : Moment net} (h : ∀ w, m.taken w ≤ (m.sent w).length)
    (step : Step m m') : ∀ w, m'.taken w ≤ (m'.sent w).length := by
  intro w
  have hle := h w
  cases step with
  | @give t s next v item store running moves room wanted =>
    by_cases hv : w = v
    · subst hv
      dsimp only
      rw [Function.update_self, List.length_append]
      omega
    · dsimp only
      rwa [Function.update_of_ne hv]
  | @take t writer s atEnd v next item store running moves waiting =>
    by_cases hv : w = v
    · subst hv
      dsimp only
      rw [Function.update_self]
      exact (List.getElem?_eq_some_iff.1 waiting).1
    · dsimp only
      rwa [Function.update_of_ne hv]
  | lose | atEnd | turn | fail | stop | fall | quit => exact hle

/-- Nothing is taken that has not been put in. -/
theorem taken_le_of_steps {store : Store} (steps : Steps (first net store) m) :
    ∀ w, m.taken w ≤ (m.sent w).length := by
  induction steps with
  | refl => exact fun w => Nat.le_refl 0
  | snoc _ step ih => exact taken_le_of_step ih step

def Stuck (m : Moment net) : Prop := ∀ t, ¬ m.Able t

section

omit [DecidableEq Task] [DecidableEq Channel]

/-- A failed task could always end, so whoever is stuck is running. -/
theorem Stuck.running (h : m.Stuck) {t : Task} (htask : (m.status t).hasEnded = false) :
    ∃ s, m.status t = .running s := by
  cases hstatus : m.status t with
  | running s => exact ⟨s, rfl⟩
  | failing cause =>
    refine absurd ?_ (h t)
    simp only [Able, hstatus]
  | ended cause =>
    rw [hstatus] at htask
    cases htask

/-- A task that is held up waits for room or for an item, and the flag is not up. -/
theorem Stuck.waits (h : m.Stuck) {t : Task} {s : net.State t} (hs : m.status t = .running s) :
    m.raised = false ∧
      ((∃ w item next store, net.move t m.store s = (.give w item next, store)) ∨
        ∃ w next atEnd store, net.move t m.store s = (.take w next atEnd, store)) := by
  have hable := h t
  rcases hmove : net.move t m.store s with ⟨move, store⟩
  simp only [Able, hs, hmove] at hable
  cases move with
  | give w item next =>
    exact ⟨Bool.eq_false_iff.2 fun hraised => hable (.inl hraised),
      .inl ⟨w, item, next, store, rfl⟩⟩
  | take w next atEnd =>
    exact ⟨Bool.eq_false_iff.2 fun hraised => hable (.inl hraised),
      .inr ⟨w, next, atEnd, store, rfl⟩⟩
  | turn next | fail cause | stop => exact absurd trivial hable

/-- The channel that a task waits to give to is full, and its reader is there. -/
theorem Stuck.full (h : m.Stuck) {t : Task} {s next : net.State t} {w : Channel} {item : net.Item w}
    {store : Store} (hs : m.status t = .running s)
    (hmove : net.move t m.store s = (.give w item next, store)) :
    m.taken w + net.capacity w ≤ (m.sent w).length ∧
      ∀ r, net.reader w = some r → (m.status r).hasEnded = false := by
  have hable := h t
  simp only [Able, hs, hmove, not_or] at hable
  obtain ⟨-, hfull, hthere⟩ := hable
  exact ⟨Nat.le_of_not_lt hfull,
    fun r hr => Bool.eq_false_iff.2 fun hended => hthere ⟨r, hr, hended⟩⟩

/-- The channel that a task waits to take from is empty, and a writer is there. -/
theorem Stuck.empty (h : m.Stuck) {t : Task} {s atEnd : net.State t} {w : Channel}
    {next : net.Item w → net.State t} {store : Store} (hs : m.status t = .running s)
    (hmove : net.move t m.store s = (.take w next atEnd, store)) :
    (m.sent w).length ≤ m.taken w ∧
      ∃ q, net.writes q w ∧ (m.status q).hasEnded = false := by
  have hable := h t
  simp only [Able, hs, hmove, not_or, not_forall, Bool.not_eq_true] at hable
  obtain ⟨-, hempty, q, hwrites, hthere⟩ := hable
  exact ⟨Nat.le_of_not_lt hempty, q, hwrites, hthere⟩

variable {depth : Task → Nat} {deepest : Nat} {t : Task} {s atEnd next : net.State t} {w : Channel}
  {store : Store}

/-- Nobody waits for room in a channel: the reader of a full one can take. -/
theorem Stuck.not_give {item : net.Item w} (h : m.Stuck)
    (howns : ∀ t store s, Owns t (net.move t store s).1) (layered : net.Layered depth deepest)
    (hroom : m.Roomy) (hs : m.status t = .running s) :
    net.move t m.store s ≠ (.give w item next, store) := by
  -- by induction on the way down to the deepest task: the reader of a full channel would itself
  -- have to wait for room
  induction hdepth : deepest - depth t using Nat.strongRecOn generalizing t w store with
  | _ n ih =>
    intro hmove
    obtain ⟨hfull, hthere⟩ := h.full hs hmove
    cases hreader : net.reader w with
    | none =>
      have hlt := hroom t s w item next store hs hmove hreader
      omega
    | some r =>
      obtain ⟨s', hs'⟩ := h.running (hthere r hreader)
      obtain ⟨-, ⟨v, item', next', store', hmove'⟩ | ⟨v, next', atEnd, store', hmove'⟩⟩ :=
        h.waits hs'
      · have hwrites := howns t m.store s
        rw [hmove] at hwrites
        have hlt := layered.deeper hwrites hreader
        have hle := layered.bounded r
        exact ih (deepest - depth r) (by omega) hs' rfl hmove'
      · have hreads := howns r m.store s'
        rw [hmove'] at hreads
        obtain rfl := layered.single hreads hreader
        have hcapacity := layered.capacity v
        have hempty := (h.empty hs' hmove').1
        omega

/-- Nor does anybody wait for an item: those who could send one would wait for room. -/
theorem Stuck.not_take {next : net.Item w → net.State t} (h : m.Stuck)
    (howns : ∀ t store s, Owns t (net.move t store s).1) (layered : net.Layered depth deepest)
    (hroom : m.Roomy) (hs : m.status t = .running s) :
    net.move t m.store s ≠ (.take w next atEnd, store) := by
  -- by induction on the depth: a writer that has not ended would itself have to wait for an item
  induction hdepth : depth t using Nat.strongRecOn generalizing t w store with
  | _ n ih =>
    intro hmove
    obtain ⟨-, q, hwrites, hthere⟩ := h.empty hs hmove
    obtain ⟨s', hs'⟩ := h.running hthere
    obtain ⟨-, ⟨v, item, next', store', hmove'⟩ | ⟨v, next', atEnd', store', hmove'⟩⟩ :=
      h.waits hs'
    · exact h.not_give howns layered hroom hs' hmove'
    · have hreads := howns t m.store s
      rw [hmove] at hreads
      have hlt := layered.deeper hwrites hreads
      exact ih (depth q) (by omega) hs' rfl hmove'

/-- Until all tasks have ended there is one that nothing holds up. -/
theorem exists_able (howns : ∀ t store s, Owns t (net.move t store s).1)
    (layered : net.Layered depth deepest) (hroom : m.Roomy) (hunfinished : ¬ m.Finished) :
    ∃ t, m.Able t := by
  apply Classical.byContradiction
  intro hnone
  have hstuck : m.Stuck := fun t hable => hnone ⟨t, hable⟩
  apply hunfinished
  intro t
  cases hgone : (m.status t).hasEnded with
  | true => rfl
  | false =>
    obtain ⟨s, hs⟩ := hstuck.running hgone
    obtain ⟨-, ⟨w, item, next, store, hmove⟩ | ⟨w, next, atEnd, store, hmove⟩⟩ := hstuck.waits hs
    · exact absurd hmove (hstuck.not_give howns layered hroom hs)
    · exact absurd hmove (hstuck.not_take howns layered hroom hs)

end

/-- Until all tasks have ended somebody can move. -/
theorem Valid.progress {depth : Task → Nat} {deepest : Nat} (h : m.Valid Fit)
    (sound : net.Sound Fit) (layered : net.Layered depth deepest) (hroom : m.Roomy)
    (hunfinished : ¬ m.Finished) : ∃ m', Step m m' := by
  obtain ⟨t, hable⟩ := exists_able sound.owns layered hroom hunfinished
  obtain ⟨next, step, -⟩ := hable.step h.taken_le
  exact ⟨next, step⟩

end Moment

def Lessens {State : Type} {Item : Channel → Type} (weight : State → Nat) (cost : Channel → Nat)
    (before : Nat) : Move Item State → Prop
  | .give w _ next => weight next + cost w < before
  | .take w next atEnd => (∀ item, weight (next item) < before + cost w) ∧ weight atEnd < before
  | .turn next => weight next < before
  | .fail _ | .stop => True

/-- The work that is left to a task in a state, and the work that an item in a channel makes. -/
structure Effort (net : Network Task Channel Store) where
  weight : (t : Task) → net.State t → Nat
  cost : Channel → Nat
  less : ∀ t store s, Lessens (weight t) cost (weight t s) (net.move t store s).1

namespace Effort

variable (effort : net.Effort)

def burden (t : Task) : Status (net.State t) → Nat
  | .running s => effort.weight t s + 2
  | .failing _ => 1
  | .ended _ => 0

def total [Fintype Task] [Fintype Channel] (m : Moment net) : Nat :=
  (∑ t, effort.burden t (m.status t)) + ∑ w, effort.cost w * ((m.sent w).length - m.taken w)

end Effort

/-- A sum changes by what one of its terms does. -/
theorem sum_update {ι : Type} [Fintype ι] [DecidableEq ι] {β : ι → Type} (f : (i : ι) → β i → Nat)
    (g : (i : ι) → β i) (a : ι) (v : β a) :
    (∑ i, f i (Function.update g a v i)) + f a (g a) = (∑ i, f i (g i)) + f a v := by
  rw [← Finset.add_sum_erase Finset.univ _ (Finset.mem_univ a),
    ← Finset.add_sum_erase Finset.univ (fun i => f i (g i)) (Finset.mem_univ a)]
  have hrest : ∑ i ∈ Finset.univ.erase a, f i (Function.update g a v i) =
      ∑ i ∈ Finset.univ.erase a, f i (g i) := by
    apply Finset.sum_congr rfl
    intro i hi
    rw [Function.update_of_ne (Finset.ne_of_mem_erase hi)]
  rw [hrest, Function.update_self]
  omega

omit [DecidableEq Channel] in
/-- What a change of one status does to the work left with the tasks. -/
theorem Effort.burden_update [Fintype Task] (effort : net.Effort) {m' : Moment net} {t : Task}
    {status : Status (net.State t)} (hstatus : m'.status = Function.update m.status t status) :
    (∑ q, effort.burden q (m'.status q)) + effort.burden t (m.status t) =
      (∑ q, effort.burden q (m.status q)) + effort.burden t status := by
  rw [hstatus]
  exact sum_update effort.burden m.status t status

variable [Fintype Task] [Fintype Channel]

omit [DecidableEq Channel] in
/-- A step that leaves the channels alone takes from the work of its task. -/
theorem Effort.total_lt (effort : net.Effort) {m' : Moment net} {t : Task}
    {status : Status (net.State t)} (hstatus : m'.status = Function.update m.status t status)
    (hsent : m'.sent = m.sent) (htaken : m'.taken = m.taken)
    (hless : effort.burden t status < effort.burden t (m.status t)) :
    effort.total m' < effort.total m := by
  have htasks := effort.burden_update hstatus
  rw [total, total, hsent, htaken]
  omega

/-- Every step leaves less to be done. -/
theorem Step.total_lt (effort : net.Effort) {m' : Moment net} (step : Step m m') :
    effort.total m' < effort.total m := by
  cases step with
  | @give t s next w item store running moves room wanted =>
    have htasks := sum_update effort.burden m.status t (.running next)
    have hchannels := sum_update (fun v sent => effort.cost v * (sent.length - m.taken v)) m.sent w
      (m.sent w ++ [(t, item)])
    have hless := effort.less t m.store s
    simp only [moves, Lessens] at hless
    have hone : effort.cost w * ((m.sent w ++ [(t, item)]).length - m.taken w) ≤
        effort.cost w * ((m.sent w).length - m.taken w) + effort.cost w := by
      rw [← Nat.mul_succ, List.length_append, List.length_singleton]
      apply Nat.mul_le_mul_left
      omega
    simp only [Effort.burden, running] at htasks
    -- what the item will cost is paid by the task that gives it
    unfold Effort.total
    simp only [Effort.burden] at htasks hchannels ⊢
    omega
  | @lose t r s next w item store running moves reads gone =>
    refine effort.total_lt rfl rfl rfl ?_
    rw [running]
    exact Nat.succ_pos _
  | @take t writer s atEnd w next item store running moves waiting =>
    have htasks := sum_update effort.burden m.status t (.running (next item))
    have hchannels := sum_update (fun v taken => effort.cost v * ((m.sent v).length - taken))
      m.taken w (m.taken w + 1)
    have hless := effort.less t m.store s
    simp only [moves, Lessens] at hless
    have hnext := hless.1 item
    have hone : effort.cost w * ((m.sent w).length - (m.taken w + 1)) + effort.cost w =
        effort.cost w * ((m.sent w).length - m.taken w) := by
      have hlt := (List.getElem?_eq_some_iff.1 waiting).1
      rw [← Nat.mul_succ]
      congr 1
      omega
    simp only [Effort.burden, running] at htasks
    -- and passes to the task that takes it
    unfold Effort.total
    simp only [Effort.burden] at htasks hchannels ⊢
    omega
  | @atEnd t s atEnd w next store running moves hend calm =>
    refine effort.total_lt rfl rfl rfl ?_
    have hless := effort.less t m.store s
    simp only [moves, Lessens] at hless
    rw [running]
    exact Nat.add_lt_add_right hless.2 2
  | @turn t s next store running moves =>
    refine effort.total_lt rfl rfl rfl ?_
    have hless := effort.less t m.store s
    simp only [moves, Lessens] at hless
    rw [running]
    exact Nat.add_lt_add_right hless 2
  | @fail t s cause store running moves =>
    refine effort.total_lt rfl rfl rfl ?_
    rw [running]
    exact Nat.lt_add_of_pos_left (Nat.succ_pos _)
  | @stop t s store running moves =>
    refine effort.total_lt rfl rfl rfl ?_
    rw [running]
    exact Nat.succ_pos _
  | @fall t cause failing =>
    refine effort.total_lt rfl rfl rfl ?_
    rw [failing]
    exact Nat.one_pos
  | @quit t s running raised =>
    refine effort.total_lt rfl rfl rfl ?_
    rw [running]
    exact Nat.succ_pos _

/-- No run goes on forever. -/
theorem Moment.acc (effort : net.Effort) (m : Moment net) :
    Acc (fun after before : Moment net => Step before after) m := by
  induction htotal : effort.total m using Nat.strongRecOn generalizing m with
  | _ n ih =>
    refine ⟨m, fun m' step => ?_⟩
    have hlt := step.total_lt effort
    exact ih (effort.total m') (by omega) m' rfl

/-- No move puts more into a channel than its task had left for it. -/
def Spends {State : Type} {Item : Channel → Type} (w : Channel) (left : State → Nat)
    (before : Nat) : Move Item State → Prop
  | .give v _ next => left next + (if v = w then 1 else 0) ≤ before
  | .take _ next atEnd => (∀ item, left (next item) ≤ before) ∧ left atEnd ≤ before
  | .turn next => left next ≤ before
  | .fail _ | .stop => True

omit [Fintype Task] [Fintype Channel] [DecidableEq Task] in
/-- A task that does not hold a sender of the channel needs nothing left for it. -/
theorem Spends.of_within {State : Type} {Item : Channel → Type} {gives takes : Channel → Prop}
    {move : Move Item State} {w : Channel} (h : move.Within gives takes) (hw : ¬ gives w) :
    Spends w (fun _ => 0) 0 move := by
  cases move with
  | give v item next =>
    have hv : v ≠ w := fun heq => hw (heq ▸ h)
    simp only [Spends, if_neg hv, Nat.le_refl]
  | take v next atEnd => exact ⟨fun item => Nat.le_refl 0, Nat.le_refl 0⟩
  | turn next => exact Nat.le_refl 0
  | fail cause => trivial
  | stop => trivial

/-- How many items each task may still put into a channel. -/
structure Quota (net : Network Task Channel Store) (w : Channel) where
  left : (t : Task) → net.State t → Nat
  spends : ∀ t store s, Spends w (left t) (left t s) (net.move t store s).1

namespace Quota

variable {w : Channel} (quota : net.Quota w)

def due (t : Task) : Status (net.State t) → Nat
  | .running s => quota.left t s
  | .failing _ | .ended _ => 0

def total (m : Moment net) : Nat := (m.sent w).length + ∑ t, quota.due t (m.status t)

omit [Fintype Channel] in
/-- A step of one task spends what its own quota has lost. -/
theorem total_update {m' : Moment net} {t : Task} {status : Status (net.State t)}
    (hstatus : m'.status = Function.update m.status t status)
    (hless : (m'.sent w).length + quota.due t status ≤
      (m.sent w).length + quota.due t (m.status t)) : quota.total m' ≤ quota.total m := by
  have htasks := sum_update quota.due m.status t status
  rw [total, total, hstatus]
  omega

omit [Fintype Channel] in
/-- No step lets more items into the channel than were due. -/
theorem step_le {m' : Moment net} (step : Step m m') : quota.total m' ≤ quota.total m := by
  cases step with
  | @give t s next v item store running moves room wanted =>
    have hspends := quota.spends t m.store s
    simp only [moves, Spends] at hspends
    refine quota.total_update rfl ?_
    rw [running]
    dsimp only [due]
    -- only what is sent to the channel in question counts
    by_cases hv : v = w
    · subst hv
      rw [if_pos rfl] at hspends
      rw [Function.update_self, List.length_append, List.length_singleton]
      omega
    · rw [if_neg hv] at hspends
      rw [Function.update_of_ne (Ne.symm hv)]
      omega
  | @take t writer s atEnd v next item store running moves waiting =>
    have hspends := quota.spends t m.store s
    simp only [moves, Spends] at hspends
    refine quota.total_update rfl (Nat.add_le_add_left ?_ _)
    rw [running]
    exact hspends.1 item
  | @atEnd t s atEnd v next store running moves hend calm =>
    have hspends := quota.spends t m.store s
    simp only [moves, Spends] at hspends
    refine quota.total_update rfl (Nat.add_le_add_left ?_ _)
    rw [running]
    exact hspends.2
  | @turn t s next store running moves =>
    have hspends := quota.spends t m.store s
    simp only [moves, Spends] at hspends
    refine quota.total_update rfl (Nat.add_le_add_left ?_ _)
    rw [running]
    exact hspends
  | lose | fail | stop | fall | quit =>
    exact quota.total_update rfl (Nat.add_le_add_left (Nat.zero_le _) _)

omit [Fintype Channel] in
theorem steps_le {m' : Moment net} (steps : Steps m m') : quota.total m' ≤ quota.total m := by
  induction steps with
  | refl => exact Nat.le_refl _
  | snoc _ step ih => exact (quota.step_le step).trans ih

omit [Fintype Channel] in
/-- A channel that can hold all that may come has room for what comes. -/
theorem room (h : quota.total m ≤ net.capacity w) {t : Task} {s next : net.State t}
    {item : net.Item w} {store : Store} (running : m.status t = .running s)
    (moves : net.move t m.store s = (.give w item next, store)) :
    (m.sent w).length < m.taken w + net.capacity w := by
  have hspends := quota.spends t m.store s
  simp only [moves, Spends, if_true] at hspends
  -- one of the items still to come is this one
  have hone := sum_update quota.due m.status t (.ended none)
  rw [running] at hone
  unfold total at h
  dsimp only [due] at hone h
  omega

end Quota

end PageTemplate.Network
