import Mathlib.Logic.Function.Basic
import PageTemplate.Failure

/-!
Tasks that run at the same time and hand items to each other through bounded channels. One flag
tells all of them to give up. A task that fails raises the flag while it still holds its ends of the
channels, and only then ends.
-/

namespace PageTemplate

/-- What a task does next: put an item into a channel, take one out or learn that none will come, go
on by itself, fail, or end. -/
inductive Move {Channel : Type} (Item : Channel → Type) (State : Type)
  | give (w : Channel) (item : Item w) (next : State)
  | take (w : Channel) (next : Item w → State) (atEnd : State)
  | turn (next : State)
  | fail (cause : Failure)
  | stop

def Move.Within {Channel : Type} {Item : Channel → Type} {State : Type}
    (gives takes : Channel → Prop) : Move Item State → Prop
  | .give w _ _ => gives w
  | .take w _ _ => takes w
  | .turn _ | .fail _ | .stop => True

inductive Status (State : Type)
  | running (state : State)
  /-- It has failed and raised the flag, but holds its ends of the channels. -/
  | failing (cause : Failure)
  | ended (cause : Option Failure)

def Status.hasEnded {State : Type} : Status State → Bool
  | .ended _ => true
  | _ => false

/-- The programs of tasks and the channels between them. All tasks see one store. -/
structure Network (Task Channel Store : Type) where
  Item : Channel → Type
  State : Task → Type
  /-- Whether a task is there at all. -/
  present : Task → Bool
  start : (t : Task) → State t
  move : (t : Task) → Store → State t → Move Item (State t) × Store
  writes : Task → Channel → Prop
  /-- The task that takes from a channel; from some nobody does while the tasks run. -/
  reader : Channel → Option Task
  capacity : Channel → Nat

namespace Network

variable {Task Channel Store : Type} [DecidableEq Task] [DecidableEq Channel]

/-- A moment of a run. A channel keeps all that has been put into it and counts what has been taken
out. -/
structure Moment (net : Network Task Channel Store) where
  raised : Bool
  store : Store
  status : (t : Task) → Status (net.State t)
  sent : (w : Channel) → List (Task × net.Item w)
  taken : Channel → Nat

variable {net : Network Task Channel Store}

namespace Moment

def first (net : Network Task Channel Store) (store : Store) : Moment net where
  raised := false
  store := store
  status := fun t => if net.present t then .running (net.start t) else .ended none
  sent := fun _ => []
  taken := fun _ => 0

def Over (m : Moment net) (w : Channel) : Prop :=
  m.taken w = (m.sent w).length ∧ ∀ t, net.writes t w → (m.status t).hasEnded = true

def Finished (m : Moment net) : Prop := ∀ t, (m.status t).hasEnded = true

def heard (m : Moment net) (t : Task) (w : Channel) : List (net.Item w) :=
  if net.reader w = some t then ((m.sent w).take (m.taken w)).map Prod.snd else []

def said (m : Moment net) (t : Task) (w : Channel) : List (net.Item w) :=
  ((m.sent w).filter fun entry => entry.1 = t).map Prod.snd

end Moment

/-- One step of one task. A full channel blocks the task that gives, an empty one the task that
takes. An item for a task that has ended is lost, and its sender ends. Where the flag is up, a task
may end at any time, and must not go on as if its input had come to an end. -/
inductive Step : Moment net → Moment net → Prop
  | give {m : Moment net} {t : Task} {s next : net.State t} {w : Channel} {item : net.Item w}
    {store : Store} (running : m.status t = .running s)
    (moves : net.move t m.store s = (.give w item next, store))
    (room : (m.sent w).length < m.taken w + net.capacity w)
    (wanted : ∀ r, net.reader w = some r → (m.status r).hasEnded = false) :
    Step m { m with
      store := store
      status := Function.update m.status t (.running next)
      sent := Function.update m.sent w (m.sent w ++ [(t, item)]) }
  | lose {m : Moment net} {t r : Task} {s next : net.State t} {w : Channel} {item : net.Item w}
    {store : Store} (running : m.status t = .running s)
    (moves : net.move t m.store s = (.give w item next, store))
    (reads : net.reader w = some r) (gone : (m.status r).hasEnded = true) :
    Step m { m with store := store, status := Function.update m.status t (.ended none) }
  | take {m : Moment net} {t writer : Task} {s atEnd : net.State t} {w : Channel}
    {next : net.Item w → net.State t} {item : net.Item w} {store : Store}
    (running : m.status t = .running s)
    (moves : net.move t m.store s = (.take w next atEnd, store))
    (waiting : (m.sent w)[m.taken w]? = some (writer, item)) :
    Step m { m with
      store := store
      status := Function.update m.status t (.running (next item))
      taken := Function.update m.taken w (m.taken w + 1) }
  | atEnd {m : Moment net} {t : Task} {s atEnd : net.State t} {w : Channel}
    {next : net.Item w → net.State t} {store : Store} (running : m.status t = .running s)
    (moves : net.move t m.store s = (.take w next atEnd, store)) (spent : m.Over w)
    (calm : m.raised = false) :
    Step m { m with store := store, status := Function.update m.status t (.running atEnd) }
  | turn {m : Moment net} {t : Task} {s next : net.State t} {store : Store}
    (running : m.status t = .running s) (moves : net.move t m.store s = (.turn next, store)) :
    Step m { m with store := store, status := Function.update m.status t (.running next) }
  | fail {m : Moment net} {t : Task} {s : net.State t} {cause : Failure} {store : Store}
    (running : m.status t = .running s) (moves : net.move t m.store s = (.fail cause, store)) :
    Step m { m with
      raised := true
      store := store
      status := Function.update m.status t (.failing cause) }
  | stop {m : Moment net} {t : Task} {s : net.State t} {store : Store}
    (running : m.status t = .running s) (moves : net.move t m.store s = (.stop, store)) :
    Step m { m with store := store, status := Function.update m.status t (.ended none) }
  | fall {m : Moment net} {t : Task} {cause : Failure} (failing : m.status t = .failing cause) :
    Step m { m with status := Function.update m.status t (.ended (some cause)) }
  | quit {m : Moment net} {t : Task} {s : net.State t} (running : m.status t = .running s)
    (raised : m.raised = true) :
    Step m { m with status := Function.update m.status t (.ended none) }

inductive Steps : Moment net → Moment net → Prop
  | refl (m : Moment net) : Steps m m
  | snoc {m mid last : Moment net} (steps : Steps m mid) (step : Step mid last) : Steps m last

structure History (net : Network Task Channel Store) where
  heard : (w : Channel) → List (net.Item w)
  spent : Channel → Bool
  said : (w : Channel) → List (net.Item w)

/-- A task has come to a state by its own program alone, in stores of a certain kind. -/
inductive Ran (Fit : Store → Prop) (t : Task) : History net → net.State t → Prop
  | start : Ran Fit t ⟨fun _ => [], fun _ => false, fun _ => []⟩ (net.start t)
  | give {h : History net} {s next : net.State t} {w : Channel} {item : net.Item w}
    {store after : Store} (ran : Ran Fit t h s) (fit : Fit store)
    (moves : net.move t store s = (.give w item next, after)) :
    Ran Fit t { h with said := Function.update h.said w (h.said w ++ [item]) } next
  | take {h : History net} {s atEnd : net.State t} {w : Channel}
    {next : net.Item w → net.State t} {store after : Store} (ran : Ran Fit t h s)
    (fit : Fit store) (moves : net.move t store s = (.take w next atEnd, after))
    (item : net.Item w) :
    Ran Fit t { h with heard := Function.update h.heard w (h.heard w ++ [item]) } (next item)
  | atEnd {h : History net} {s atEnd : net.State t} {w : Channel}
    {next : net.Item w → net.State t} {store after : Store} (ran : Ran Fit t h s)
    (fit : Fit store) (moves : net.move t store s = (.take w next atEnd, after)) :
    Ran Fit t { h with spent := Function.update h.spent w true } atEnd
  | turn {h : History net} {s next : net.State t} {store after : Store} (ran : Ran Fit t h s)
    (fit : Fit store) (moves : net.move t store s = (.turn next, after)) : Ran Fit t h next

/-- What a move leads to, for all that it may take. -/
def Keeps {t : Task} (P : History net → net.State t → Prop) (h : History net) :
    Move net.Item (net.State t) → Prop
  | .give w item next => P { h with said := Function.update h.said w (h.said w ++ [item]) } next
  | .take w next atEnd =>
    (∀ item, P { h with heard := Function.update h.heard w (h.heard w ++ [item]) } (next item)) ∧
      P { h with spent := Function.update h.spent w true } atEnd
  | .turn next => P h next
  | .fail _ | .stop => True

omit [DecidableEq Task] in
/-- What holds at the beginning of a program and is kept by its moves holds all along. -/
theorem Ran.invariant {Fit : Store → Prop} {t : Task} {P : History net → net.State t → Prop}
    (hstart : P ⟨fun _ => [], fun _ => false, fun _ => []⟩ (net.start t))
    (hmove : ∀ h s store, P h s → Fit store → Keeps P h (net.move t store s).1) {h : History net}
    {s : net.State t} (ran : Ran Fit t h s) : P h s := by
  induction ran with
  | start => exact hstart
  | give _ fit moves ih =>
    have hkeeps := hmove _ _ _ ih fit
    rw [moves] at hkeeps
    exact hkeeps
  | take _ fit moves item ih =>
    have hkeeps := hmove _ _ _ ih fit
    rw [moves] at hkeeps
    exact hkeeps.1 item
  | atEnd _ fit moves ih =>
    have hkeeps := hmove _ _ _ ih fit
    rw [moves] at hkeeps
    exact hkeeps.2
  | turn _ fit moves ih =>
    have hkeeps := hmove _ _ _ ih fit
    rw [moves] at hkeeps
    exact hkeeps

def Owns (t : Task) (move : Move net.Item (net.State t)) : Prop :=
  move.Within (net.writes t) fun w => net.reader w = some t

namespace Moment

variable {Fit : Store → Prop} {m : Moment net}

def Stands (Fit : Store → Prop) (m : Moment net) (t : Task) (s : net.State t) : Prop :=
  match m.status t with
  | .running state => state = s
  | .failing cause | .ended (some cause) =>
    m.raised = true ∧ ∃ store after, Fit store ∧ net.move t store s = (.fail cause, after)
  | .ended none =>
    m.raised = true ∨ ∃ store after, Fit store ∧ net.move t store s = (.stop, after)

def Completed (Fit : Store → Prop) (m : Moment net) (t : Task) : Prop :=
  ∃ spent s store after, Ran Fit t ⟨m.heard t, spent, m.said t⟩ s ∧ Fit store ∧
    net.move t store s = (.stop, after)

def Closed (Fit : Store → Prop) (m : Moment net) (w : Channel) : Prop :=
  m.Over w ∧ ∀ t, net.writes t w → m.Completed Fit t

/-- What a task has done so far is a run of its program, and what it has learned about the end of
its input is true. -/
def Faithful (Fit : Store → Prop) (m : Moment net) (t : Task) : Prop :=
  ∃ spent s, Ran Fit t ⟨m.heard t, spent, m.said t⟩ s ∧ (∀ w, spent w = true → m.Closed Fit w) ∧
    m.Stands Fit t s

/-- What holds at every moment of a run. -/
structure Valid (Fit : Store → Prop) (m : Moment net) : Prop where
  fit : Fit m.store
  taken_le : ∀ w, m.taken w ≤ (m.sent w).length
  writers : ∀ w, ∀ entry ∈ m.sent w, net.writes entry.1 w
  faithful : ∀ t, m.Faithful Fit t
  raised : m.raised = true →
    ∃ t cause, m.status t = .failing cause ∨ m.status t = .ended (some cause)

end Moment

/-- Programs that keep to their channels and, wherever a run may lead them, to the stores of a
certain kind, and that end by themselves only after the end of their input. -/
structure Sound (net : Network Task Channel Store) (Fit : Store → Prop) : Prop where
  fit : ∀ {m : Moment net} {t : Task} {s : net.State t}, m.Valid Fit → m.status t = .running s →
    Fit (net.move t m.store s).2
  owns : ∀ t store s, Owns t (net.move t store s).1
  stops : ∀ {m : Moment net} {t : Task} {spent : Channel → Bool} {s : net.State t}
    {store after : Store} {w : Channel}, net.present t = true → m.Valid Fit →
      Ran Fit t ⟨m.heard t, spent, m.said t⟩ s → Fit store →
        net.move t store s = (.stop, after) → net.reader w = some t → spent w = true
  absent : ∀ {t : Task} {store : Store}, net.present t = false →
    net.move t store (net.start t) = (.stop, store)
  wanted : ∀ {t r : Task} {w : Channel}, net.writes t w → net.reader w = some r →
    net.present r = true

namespace Sound

variable {Fit : Store → Prop} {m : Moment net} {t : Task} {store after : Store}
  {s next atEnd : net.State t} {w : Channel}

theorem keeps {move : Move net.Item (net.State t)} (sound : net.Sound Fit) (h : m.Valid Fit)
    (running : m.status t = .running s) (moves : net.move t m.store s = (move, after)) :
    Fit after := by
  have hafter := sound.fit h running
  rw [moves] at hafter
  exact hafter

theorem gives {item : net.Item w} (sound : net.Sound Fit)
    (moves : net.move t store s = (.give w item next, after)) : net.writes t w := by
  have howns := sound.owns t store s
  rw [moves] at howns
  exact howns

theorem takes {next : net.Item w → net.State t} (sound : net.Sound Fit)
    (moves : net.move t store s = (.take w next atEnd, after)) : net.reader w = some t := by
  have howns := sound.owns t store s
  rw [moves] at howns
  exact howns

end Sound

namespace Moment

variable {Fit : Store → Prop} {m : Moment net}

/-- At the beginning nothing has been sent and nobody has learned anything. -/
theorem valid_first (sound : net.Sound Fit) {store : Store} (h : Fit store) :
    (first net store).Valid Fit := by
  refine ⟨h, fun w => Nat.le_refl 0, fun w entry hentry => ?_, fun t => ?_, fun hraised => ?_⟩
  · exact absurd hentry List.not_mem_nil
  · have hheard : (first net store).heard t = fun _ => [] := by
      funext w
      rw [heard]
      split <;> rfl
    refine ⟨fun _ => false, net.start t, ?_, fun w hw => (Bool.false_ne_true hw).elim, ?_⟩
    · rw [hheard]
      exact .start
    -- a task that is not there counts as one that has ended at its beginning
    · cases hpresent : net.present t with
      | true => simp [Stands, first, hpresent]
      | false =>
        simp only [Stands, first, hpresent]
        exact .inr ⟨store, store, h, sound.absent hpresent⟩
  · exact (Bool.false_ne_true hraised).elim

/-- A channel that is at its end stays so when a task moves that has not ended. -/
theorem Closed.of_update {m' : Moment net} {t : Task} {status : Status (net.State t)} {w : Channel}
    (h : m.Closed Fit w) (htask : (m.status t).hasEnded = false)
    (hstatus : m'.status = Function.update m.status t status)
    (hsent : ¬ net.writes t w → m'.sent w = m.sent w)
    (htaken : m.taken w = (m.sent w).length → m'.taken w = m.taken w)
    (hheard : ∀ q, q ≠ t → m'.heard q = m.heard q) (hsaid : ∀ q, q ≠ t → m'.said q = m.said q) :
    m'.Closed Fit w := by
  obtain ⟨⟨hall, hended⟩, hcompleted⟩ := h
  -- all writers have ended, so the one that moves is none of them
  have hwrites : ¬ net.writes t w := by
    intro hwrites
    rw [hended t hwrites] at htask
    cases htask
  have hne : ∀ q, net.writes q w → q ≠ t := fun q hq heq => hwrites (heq ▸ hq)
  refine ⟨⟨?_, fun q hq => ?_⟩, fun q hq => ?_⟩
  · rw [htaken hall, hsent hwrites]
    exact hall
  · rw [hstatus, Function.update_of_ne (hne q hq)]
    exact hended q hq
  · unfold Completed
    rw [hheard q (hne q hq), hsaid q (hne q hq)]
    exact hcompleted q hq

/-- A task does not notice the moves of the others. -/
theorem Faithful.of_update {m' : Moment net} {t q : Task} {status : Status (net.State t)}
    (h : m.Faithful Fit q) (hne : q ≠ t) (hstatus : m'.status = Function.update m.status t status)
    (hheard : m'.heard q = m.heard q) (hsaid : m'.said q = m.said q)
    (hraised : m.raised = true → m'.raised = true)
    (hover : ∀ w, m.Closed Fit w → m'.Closed Fit w) : m'.Faithful Fit q := by
  obtain ⟨spent, s, hran, htrue, hstands⟩ := h
  refine ⟨spent, s, ?_, fun w hw => hover w (htrue w hw), ?_⟩
  · rw [hheard, hsaid]
    exact hran
  · have hsame : m'.status q = m.status q := by rw [hstatus, Function.update_of_ne hne]
    unfold Stands at hstands ⊢
    rw [hsame]
    cases hq : m.status q with
    | running state => rwa [hq] at hstands
    | failing cause =>
      rw [hq] at hstands
      exact ⟨hraised hstands.1, hstands.2⟩
    | ended cause =>
      rw [hq] at hstands
      cases cause with
      | none => exact hstands.imp_left hraised
      | some cause => exact ⟨hraised hstands.1, hstands.2⟩

/-- A move of one task keeps the invariant if it does for that task. A move puts at most one item
into a channel of the task and takes at most one out. -/
theorem Valid.of_update {m' : Moment net} {t : Task} {status : Status (net.State t)}
    (h : m.Valid Fit) (htask : (m.status t).hasEnded = false)
    (hstatus : m'.status = Function.update m.status t status) (hfit : Fit m'.store)
    (hsent : ∀ w, m'.sent w = m.sent w ∨
      net.writes t w ∧ ∃ item, m'.sent w = m.sent w ++ [(t, item)])
    (htaken : ∀ w, m'.taken w = m.taken w ∨
      net.reader w = some t ∧ m.taken w < (m.sent w).length ∧ m'.taken w = m.taken w + 1)
    (hmono : m.raised = true → m'.raised = true)
    (hraised : m'.raised = true → m.raised = true ∨ ∃ cause, status = .failing cause)
    (hkeep : ∀ cause, m.status t = .failing cause → status = .ended (some cause))
    (hself : (∀ w, m.Closed Fit w → m'.Closed Fit w) → m'.Faithful Fit t) : m'.Valid Fit := by
  -- what the others have heard and said stays the same: only the mover takes from its channel, and
  -- what is added to a channel comes behind everything that has been taken, under the mover's name
  have hheard : ∀ q, q ≠ t → m'.heard q = m.heard q := by
    intro q hq
    funext w
    rw [heard, heard]
    split
    · next hreader =>
      have hcount : m'.taken w = m.taken w := by
        rcases htaken w with hsame | ⟨hother, _⟩
        · exact hsame
        · exact absurd (Option.some.inj (hreader.symm.trans hother)) hq
      rcases hsent w with hsame | ⟨_, item, hmore⟩
      · rw [hcount, hsame]
      · rw [hcount, hmore, List.take_append_of_le_length (h.taken_le w)]
    · rfl
  have hsaid : ∀ q, q ≠ t → m'.said q = m.said q := by
    intro q hq
    funext w
    rw [said, said]
    rcases hsent w with hsame | ⟨_, item, hmore⟩
    · rw [hsame]
    · have hno :
          (([(t, item)] : List (Task × net.Item w)).filter fun entry => entry.1 = q) = [] := by
        simp [Ne.symm hq]
      rw [hmore, List.filter_append, hno, List.append_nil]
  have hover : ∀ w, m.Closed Fit w → m'.Closed Fit w := by
    intro w hw
    refine hw.of_update htask hstatus (fun hwrites => ?_) (fun hall => ?_) hheard hsaid
    · rcases hsent w with hsame | ⟨hyes, _⟩
      · exact hsame
      · exact absurd hyes hwrites
    · rcases htaken w with hsame | ⟨_, hlt, _⟩
      · exact hsame
      · omega
  refine ⟨hfit, fun w => ?_, fun w entry hentry => ?_, fun q => ?_, fun hup => ?_⟩
  · have hle := h.taken_le w
    have hlength : (m.sent w).length ≤ (m'.sent w).length := by
      rcases hsent w with hsame | ⟨_, item, hmore⟩
      · exact Nat.le_of_eq (congrArg List.length hsame.symm)
      · rw [hmore, List.length_append]
        omega
    rcases htaken w with hsame | ⟨_, hlt, hnext⟩ <;> omega
  · rcases hsent w with hsame | ⟨hwrites, item, hmore⟩
    · rw [hsame] at hentry
      exact h.writers w entry hentry
    · rw [hmore] at hentry
      rcases List.mem_append.1 hentry with hold | hnew
      · exact h.writers w entry hold
      · rw [List.mem_singleton.1 hnew]
        exact hwrites
  · by_cases hq : q = t
    · subst hq
      exact hself hover
    · exact (h.faithful q).of_update hq hstatus (hheard q hq) (hsaid q hq) hmono hover
  -- a flag that was up has its cause, which the mover keeps if it is its own
  · rcases hraised hup with hold | ⟨cause, rfl⟩
    · obtain ⟨q, cause, hq⟩ := h.raised hold
      by_cases heq : q = t
      · subst heq
        rcases hq with hfailing | hended
        · refine ⟨q, cause, .inr ?_⟩
          rw [hstatus, Function.update_self, hkeep cause hfailing]
        · rw [hended] at htask
          cases htask
      · refine ⟨q, cause, ?_⟩
        rwa [hstatus, Function.update_of_ne heq]
    · refine ⟨t, cause, .inl ?_⟩
      rw [hstatus, Function.update_self]

/-- What is put into a channel is not yet heard. -/
theorem heard_give {t : Task} {w : Channel} {item : net.Item w}
    (htaken : m.taken w ≤ (m.sent w).length) (q : Task) (store : Store)
    (status : (t : Task) → Status (net.State t)) :
    heard { m with
      store := store
      status := status
      sent := Function.update m.sent w (m.sent w ++ [(t, item)]) } q = m.heard q := by
  funext v
  rw [heard, heard]
  by_cases hv : v = w
  · subst hv
    simp only [Function.update_self]
    rw [List.take_append_of_le_length htaken]
  · simp only [Function.update_of_ne hv]

theorem said_give {t : Task} {w : Channel} {item : net.Item w} (store : Store)
    (status : (t : Task) → Status (net.State t)) :
    said { m with
      store := store
      status := status
      sent := Function.update m.sent w (m.sent w ++ [(t, item)]) } t =
        Function.update (m.said t) w (m.said t w ++ [item]) := by
  funext v
  by_cases hv : v = w
  · subst hv
    simp only [said, Function.update_self, List.filter_append, List.map_append]
    simp
  · simp only [said, Function.update_of_ne hv]

/-- Whoever takes an item has heard it, behind what has come before. -/
theorem heard_take {t writer : Task} {w : Channel} {item : net.Item w}
    (hreader : net.reader w = some t) (hwaiting : (m.sent w)[m.taken w]? = some (writer, item))
    (store : Store) (status : (t : Task) → Status (net.State t)) :
    heard { m with
      store := store
      status := status
      taken := Function.update m.taken w (m.taken w + 1) } t =
        Function.update (m.heard t) w (m.heard t w ++ [item]) := by
  funext v
  by_cases hv : v = w
  · subst hv
    have hmore :
        (m.sent v).take (m.taken v + 1) = (m.sent v).take (m.taken v) ++ [(writer, item)] := by
      rw [List.take_add_one, hwaiting]
      rfl
    simp only [heard, Function.update_self, if_pos hreader, hmore, List.map_append]
    rfl
  · simp only [heard, Function.update_of_ne hv]

/-- A task that runs has come to its state by its own program. -/
theorem Valid.running {t : Task} {s : net.State t} (h : m.Valid Fit)
    (hrunning : m.status t = .running s) :
    ∃ spent, Ran Fit t ⟨m.heard t, spent, m.said t⟩ s ∧ ∀ w, spent w = true → m.Closed Fit w := by
  obtain ⟨spent, state, hran, hover, hstands⟩ := h.faithful t
  rw [Stands, hrunning] at hstands
  subst hstands
  exact ⟨spent, hran, hover⟩

/-- Where one task writes, all that was sent is what it has said. -/
theorem Valid.said_eq {t : Task} {w : Channel} (h : m.Valid Fit)
    (hsingle : ∀ q, net.writes q w → q = t) : m.said t w = (m.sent w).map Prod.snd := by
  have hall : (m.sent w).filter (fun entry => entry.1 = t) = m.sent w := by
    apply List.filter_eq_self.2
    intro entry hentry
    exact decide_eq_true (hsingle entry.1 (h.writers w entry hentry))
  rw [said, hall]

/-- A task hears what another one has said to it, in the same order. -/
theorem Valid.heard_le_said {t r : Task} {w : Channel} (h : m.Valid Fit)
    (hsingle : ∀ q, net.writes q w → q = t) (hreader : net.reader w = some r) :
    m.heard r w <+: m.said t w := by
  rw [h.said_eq hsingle, heard, if_pos hreader]
  exact (List.take_prefix _ _).map Prod.snd

/-- At the end it has heard all. -/
theorem Valid.heard_eq_said {t r : Task} {w : Channel} (h : m.Valid Fit)
    (hsingle : ∀ q, net.writes q w → q = t) (hreader : net.reader w = some r) (hover : m.Over w) :
    m.heard r w = m.said t w := by
  rw [h.said_eq hsingle, heard, if_pos hreader, hover.1, List.take_length]

/-- Nobody ends in front of an item, unless the flag is up. -/
theorem Valid.raised_of_gone {t r : Task} {w : Channel} (sound : net.Sound Fit) (h : m.Valid Fit)
    (hwrites : net.writes t w) (htask : (m.status t).hasEnded = false)
    (hreader : net.reader w = some r) (hgone : (m.status r).hasEnded = true) :
    m.raised = true := by
  obtain ⟨spent, s, hran, hover, hstands⟩ := h.faithful r
  unfold Stands at hstands
  cases hr : m.status r with
  | running state =>
    rw [hr] at hgone
    cases hgone
  | failing cause =>
    rw [hr] at hgone
    cases hgone
  | ended cause =>
    rw [hr] at hstands
    cases cause with
    | some cause => exact hstands.1
    | none =>
      rcases hstands with hup | ⟨store, after, hfit, hstop⟩
      · exact hup
      -- by its own program the reader ends only behind the last item, when the writer has ended
      · have hpresent := sound.wanted hwrites hreader
        have hall := (hover w (sound.stops hpresent h hran hfit hstop hreader)).1.2 t hwrites
        rw [hall] at htask
        cases htask

/-- Where the flag is not up, those who have ended have come to their own end. -/
theorem Valid.stopped {t : Task} (h : m.Valid Fit) (hcalm : m.raised = false)
    (hended : (m.status t).hasEnded = true) :
    ∃ spent s store after, Ran Fit t ⟨m.heard t, spent, m.said t⟩ s ∧
      (∀ w, spent w = true → m.Closed Fit w) ∧ Fit store ∧ net.move t store s = (.stop, after) := by
  obtain ⟨spent, s, hran, hover, hstands⟩ := h.faithful t
  unfold Stands at hstands
  rw [hcalm] at hstands
  cases ht : m.status t with
  | running state =>
    rw [ht] at hended
    cases hended
  | failing cause =>
    rw [ht] at hended
    cases hended
  | ended cause =>
    rw [ht] at hstands
    cases cause with
    | some cause => exact absurd hstands.1 Bool.false_ne_true
    | none =>
      -- it would have stopped in between only with the flag up
      rcases hstands with hup | ⟨store, after, hfit, hstop⟩
      · exact absurd hup Bool.false_ne_true
      · exact ⟨spent, s, store, after, hran, hover, hfit, hstop⟩

/-- As long as the flag is down, a task that has ended has completed its program. -/
theorem Valid.completed {t : Task} (h : m.Valid Fit) (hcalm : m.raised = false)
    (hended : (m.status t).hasEnded = true) : m.Completed Fit t := by
  obtain ⟨spent, s, store, after, hran, _, hfit, hstop⟩ := h.stopped hcalm hended
  exact ⟨spent, s, store, after, hran, hfit, hstop⟩

omit [DecidableEq Task] [DecidableEq Channel] in
/-- A run that is over has a failure to show, or everybody has ended without one. -/
theorem Finished.outcome (h : m.Finished) :
    (∃ t cause, m.status t = .ended (some cause)) ∨ ∀ t, m.status t = .ended none := by
  by_cases hfailed : ∃ t cause, m.status t = .ended (some cause)
  · exact .inl hfailed
  · refine .inr fun t => ?_
    have hended := h t
    cases ht : m.status t with
    | running s =>
      rw [ht] at hended
      cases hended
    | failing cause =>
      rw [ht] at hended
      cases hended
    | ended cause =>
      cases cause with
      | none => rfl
      | some cause => exact absurd ⟨t, cause, ht⟩ hfailed

/-- The flag is raised by failures only. -/
theorem Valid.calm_of_ended (h : m.Valid Fit) (hended : ∀ t, m.status t = .ended none) :
    m.raised = false := by
  cases hraised : m.raised with
  | false => rfl
  | true =>
    obtain ⟨t, cause, hfailing | hfailed⟩ := h.raised hraised
    · rw [hended t] at hfailing
      cases hfailing
    · rw [hended t] at hfailed
      cases hfailed

/-- Every step keeps what holds at every moment. -/
theorem Valid.step {m' : Moment net} (sound : net.Sound Fit) (h : m.Valid Fit) (step : Step m m') :
    m'.Valid Fit := by
  -- a task that runs is not failing, so nothing is to be kept of a failure
  have hup {t : Task} {s : net.State t} {status : Status (net.State t)}
      (hrunning : m.status t = .running s) :
      ∀ cause, m.status t = .failing cause → status = .ended (some cause) := by
    intro cause hfailing
    rw [hrunning] at hfailing
    cases hfailing
  cases step with
  | @give t s next w item store running moves room wanted =>
    obtain ⟨spent, hran, hover⟩ := h.running running
    have htask : (m.status t).hasEnded = false := by rw [running]; rfl
    refine h.of_update htask rfl (sound.keeps h running moves) (fun v => ?_) (fun v => .inl rfl)
      id .inl (hup running) fun hmono => ?_
    · by_cases hv : v = w
      · subst hv
        refine .inr ⟨sound.gives moves, item, ?_⟩
        simp only [Function.update_self]
      · refine .inl ?_
        simp only [Function.update_of_ne hv]
    · refine ⟨spent, next, ?_, fun v hv => hmono v (hover v hv), ?_⟩
      · rw [heard_give (h.taken_le w), said_give]
        exact .give hran h.fit moves
      · simp [Stands]
  | @lose t r s next w item store running moves reads gone =>
    obtain ⟨spent, hran, hover⟩ := h.running running
    have htask : (m.status t).hasEnded = false := by rw [running]; rfl
    -- the reader is gone before the end of its input: somebody must have failed
    have hraised := h.raised_of_gone sound (sound.gives moves) htask reads gone
    refine h.of_update htask rfl (sound.keeps h running moves) (fun v => .inl rfl)
      (fun v => .inl rfl) id .inl (hup running) fun hmono => ?_
    refine ⟨spent, s, hran, fun v hv => hmono v (hover v hv), ?_⟩
    simp [Stands, hraised]
  | @take t writer s atEnd w next item store running moves waiting =>
    obtain ⟨spent, hran, hover⟩ := h.running running
    have htask : (m.status t).hasEnded = false := by rw [running]; rfl
    have hreader := sound.takes moves
    refine h.of_update htask rfl (sound.keeps h running moves) (fun v => .inl rfl) (fun v => ?_)
      id .inl (hup running) fun hmono => ?_
    · by_cases hv : v = w
      · subst hv
        refine .inr ⟨hreader, (List.getElem?_eq_some_iff.1 waiting).1, ?_⟩
        simp only [Function.update_self]
      · refine .inl ?_
        simp only [Function.update_of_ne hv]
    · refine ⟨spent, next item, ?_, fun v hv => hmono v (hover v hv), ?_⟩
      · rw [heard_take hreader waiting]
        exact .take hran h.fit moves item
      · simp [Stands]
  | @atEnd t s atEnd w next store running moves hend calm =>
    obtain ⟨spent, hran, hover⟩ := h.running running
    have htask : (m.status t).hasEnded = false := by rw [running]; rfl
    refine h.of_update htask rfl (sound.keeps h running moves) (fun v => .inl rfl)
      (fun v => .inl rfl) id .inl (hup running) fun hmono => ?_
    refine ⟨Function.update spent w true, atEnd, .atEnd hran h.fit moves, fun v hv => ?_, ?_⟩
    · by_cases hw : v = w
      · subst hw
        -- the flag is not up at this very moment, so no writer has ended by giving up
        exact hmono v ⟨hend, fun q hq => h.completed calm (hend.2 q hq)⟩
      · rw [Function.update_of_ne hw] at hv
        exact hmono v (hover v hv)
    · simp [Stands]
  | @turn t s next store running moves =>
    obtain ⟨spent, hran, hover⟩ := h.running running
    have htask : (m.status t).hasEnded = false := by rw [running]; rfl
    refine h.of_update htask rfl (sound.keeps h running moves) (fun v => .inl rfl)
      (fun v => .inl rfl) id .inl (hup running) fun hmono => ?_
    refine ⟨spent, next, .turn hran h.fit moves, fun v hv => hmono v (hover v hv), ?_⟩
    simp [Stands]
  | @fail t s cause store running moves =>
    obtain ⟨spent, hran, hover⟩ := h.running running
    have htask : (m.status t).hasEnded = false := by rw [running]; rfl
    refine h.of_update htask rfl (sound.keeps h running moves) (fun v => .inl rfl)
      (fun v => .inl rfl) (fun _ => rfl) (fun _ => .inr ⟨cause, rfl⟩) (hup running) fun hmono => ?_
    refine ⟨spent, s, hran, fun v hv => hmono v (hover v hv), ?_⟩
    simp only [Stands, Function.update_self]
    exact ⟨trivial, m.store, store, h.fit, moves⟩
  | @stop t s store running moves =>
    obtain ⟨spent, hran, hover⟩ := h.running running
    have htask : (m.status t).hasEnded = false := by rw [running]; rfl
    refine h.of_update htask rfl (sound.keeps h running moves) (fun v => .inl rfl)
      (fun v => .inl rfl) id .inl (hup running) fun hmono => ?_
    refine ⟨spent, s, hran, fun v hv => hmono v (hover v hv), ?_⟩
    simp only [Stands, Function.update_self]
    exact .inr ⟨m.store, store, h.fit, moves⟩
  | @fall t cause failing =>
    obtain ⟨spent, s, hran, hover, hstands⟩ := h.faithful t
    have htask : (m.status t).hasEnded = false := by rw [failing]; rfl
    have hkeep : ∀ other, m.status t = .failing other →
        (Status.ended (some cause) : Status (net.State t)) = .ended (some other) := by
      intro other hother
      rw [failing] at hother
      cases hother
      rfl
    refine h.of_update htask rfl h.fit (fun v => .inl rfl) (fun v => .inl rfl)
      id .inl hkeep fun hmono => ?_
    refine ⟨spent, s, hran, fun v hv => hmono v (hover v hv), ?_⟩
    rw [Stands, failing] at hstands
    simp only [Stands, Function.update_self]
    exact hstands
  | @quit t s running raised =>
    obtain ⟨spent, hran, hover⟩ := h.running running
    have htask : (m.status t).hasEnded = false := by rw [running]; rfl
    refine h.of_update htask rfl h.fit (fun v => .inl rfl) (fun v => .inl rfl)
      id .inl (hup running) fun hmono => ?_
    refine ⟨spent, s, hran, fun v hv => hmono v (hover v hv), ?_⟩
    simp only [Stands, Function.update_self]
    exact .inl raised

/-- The invariant holds all through a run. -/
theorem Valid.steps {m' : Moment net} (sound : net.Sound Fit) (h : m.Valid Fit)
    (steps : Steps m m') : m'.Valid Fit := by
  induction steps with
  | refl => exact h
  | snoc _ step ih => exact ih.step sound step

end Moment
end Network
end PageTemplate
