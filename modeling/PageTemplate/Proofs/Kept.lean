import PageTemplate.Proofs.FrontEnd
import PageTemplate.Proofs.Movers
import PageTemplate.Proofs.Waiting

namespace PageTemplate

namespace TemplateLibrary

/-- What is put on a shelf goes behind what is there, and no other shelf notices. -/
theorem get?_append (library : TemplateLibrary) (key : String) (nodes : List Node) (k : String) :
    (library.append key nodes).get? k =
      if k = key then some ((library.get? key).getD [] ++ nodes) else library.get? k :=
  Keyed.lookup_update key _ library.templates k

end TemplateLibrary

open Network Stages

namespace TemplateJob

variable {job : TemplateJob} {m m' : Moment job.network}

def Fit : TemplateLibrary → Prop := fun _ => True

/-- The lexer of a template does what the lexer of a file does. -/
theorem lexed_of_ran {h : History job.network} {s : Lexing}
    (ran : @Ran _ _ _ _ job.network Fit .lexer h s) : Lexed job.source (h.said .tokens) s := by
  refine ran.invariant (P := fun h s => Lexed job.source (h.said .tokens) s)
    (Lexed.first job.source) ?_
  intro h s library hinv _
  rcases @Lexed.next 0 job.source _ s hinv with
    ⟨token, next, hmove, hnext⟩ | ⟨next, hmove, hnext⟩ | ⟨e, hmove, -⟩ | ⟨hmove, -⟩
  · simp only [network, hmove, Keeps, Function.update_self]
    exact hnext
  · simp only [network, hmove]
    exact hnext
  · simp only [network, hmove]
    trivial
  · simp only [network, hmove]
    trivial

theorem parsed_of_ran {h : History job.network} {s : Parsing}
    (ran : @Ran _ _ _ _ job.network Fit .parser h s) :
    Parsed (h.heard .tokens) (h.spent .tokens) (h.said .nodes) s := by
  refine ran.invariant
    (P := fun h s => Parsed (h.heard .tokens) (h.spent .tokens) (h.said .nodes) s)
    (.reading rfl) ?_
  intro h s library hinv _
  cases s with
  | refused e => trivial
  | finished => trivial
  | reading parser =>
    simp only [network, Stages.parse, Keeps, Function.update_self]
    exact ⟨fun token => hinv.take token, hinv.atEnd⟩
  | holding root parser =>
    cases hinv with
    | holding pushed =>
      simp only [network, Stages.parse, dif_neg Nat.zero_ne_one, Keeps, Function.update_self]
      exact .reading pushed

/-- Whoever keeps the trees ends when no more will come. -/
theorem spent_of_ran {h : History job.network} {s : Keeping}
    (ran : @Ran _ _ _ _ job.network Fit .fan h s) : s = .finished → h.spent .nodes = true := by
  refine ran.invariant (P := fun h (s : Keeping) => s = .finished → h.spent .nodes = true) nofun ?_
  intro h s library hinv _
  cases s with
  | finished => trivial
  | storing node => exact nofun
  | reading =>
    refine ⟨fun node => nofun, fun _ => ?_⟩
    simp only [Function.update_self]

theorem eq_of_keep_stop {library : TemplateLibrary} {s : Keeping}
    (h : (job.keep library s).1 = .stop) : s = .finished := by
  cases s with
  | finished => rfl
  | reading => cases h
  | storing node => cases h

/-- The tasks of a template keep the rules of a network. -/
theorem sound (job : TemplateJob) : job.network.Sound Fit := by
  constructor
  case fit => exact fun _ _ => trivial
  case owns => exact job.owns
  case stops =>
    intro m t spent s library after w _ _ ran _ moves hreader
    have hinlet := Job.inlet_of_reader hreader
    have hmove := congrArg Prod.fst moves
    cases t with
    | lexer => cases hinlet
    | parser =>
      cases hinlet
      obtain rfl := eq_of_parse_stop hmove
      cases parsed_of_ran ran with
      | finished ended => exact ended
    | fan =>
      cases hinlet
      exact spent_of_ran ran (eq_of_keep_stop hmove)
    | evaluator k | assembler k => exact k.elim0
  case absent => exact nofun
  case wanted => exact fun _ _ => rfl

/-- The trees kept are those taken, except for one that may be in hand. Whoever has given up may
have lost that one. -/
def Shelved (heard kept : List Node) (raised : Bool) : Status Keeping → Prop
  | .running .reading | .running .finished => kept = heard
  | .running (.storing node) => heard = kept ++ [node]
  | .failing _ | .ended (some _) => False
  | .ended none => kept <+: heard ∧ (raised = false → kept = heard)

/-- These are the trees that the keeper has put into the library so far. -/
def HasKept (kept : List Node) (m : Moment job.network) : Prop :=
  Shelved (m.heard .fan .nodes) kept m.raised (m.status .fan)

/-- What the library has under the key: what it had before, and then the trees kept. -/
def Kept (before : List Node) (m : Moment job.network) : Prop :=
  ∃ kept, m.store.get? job.key = some (before ++ kept) ∧ HasKept kept m

/-- Only trees that have been taken are kept. -/
theorem Shelved.le {heard kept : List Node} {raised : Bool} {status : Status Keeping}
    (h : Shelved heard kept raised status) : kept <+: heard := by
  cases status with
  | running s =>
    cases s with
    | reading | finished => exact h ▸ List.prefix_rfl
    | storing node => exact h ▸ List.prefix_append _ _
  | failing cause => exact h.elim
  | ended cause =>
    cases cause with
    | none => exact h.1
    | some cause => exact h.elim

theorem Shelved.mono {heard kept : List Node} {raised up : Bool} {status : Status Keeping}
    (h : Shelved heard kept raised status) (hup : raised = true → up = true) :
    Shelved heard kept up status := by
  cases status with
  | running s => cases s <;> exact h
  | failing cause => exact h.elim
  | ended cause =>
    cases cause with
    | some cause => exact h.elim
    | none =>
      refine ⟨h.1, fun hcalm => h.2 (Bool.eq_false_iff.2 fun hraised => ?_)⟩
      exact Bool.eq_false_iff.1 hcalm (hup hraised)

/-- The keeper moves: it takes a tree in hand, puts it into the library, or comes to its end. -/
theorem HasKept.of_acts {kept : List Node} (h : HasKept kept m) (acts : m.Acts .fan m') :
    HasKept kept m' ∧ m'.store = m.store ∨
      ∃ node, HasKept (kept ++ [node]) m' ∧ m'.store = m.store.append job.key [node] := by
  unfold HasKept at *
  cases acts with
  | @moves s move running moves follows =>
    rw [running] at h
    obtain ⟨rfl, hafter⟩ := Prod.mk.inj moves
    cases s with
    | reading =>
      -- the tree that is taken counts as heard, but it is only in hand
      refine .inl ⟨?_, hafter.symm⟩
      rcases follows with ⟨item, hstands, hheard⟩ | ⟨hstands, hheard⟩
      · rw [hstands, hheard, Function.update_self]
        exact congrArg (· ++ [item]) h.symm
      · rw [hstands, hheard]
        exact h
    | storing node =>
      obtain ⟨hstands, hheard⟩ := follows
      refine .inr ⟨node, ?_, hafter.symm⟩
      rw [hstands, hheard]
      exact h.symm
    | finished =>
      obtain ⟨hstands, hheard⟩ := follows
      refine .inl ⟨?_, hafter.symm⟩
      rw [hstands, hheard]
      exact ⟨h ▸ List.prefix_rfl, fun _ => h⟩
  | falls failing stands same store =>
    rw [failing] at h
    exact h.elim
  | quits running raised stands same store =>
    refine .inl ⟨?_, store⟩
    rw [stands, same, raised]
    exact ⟨h.le, nofun⟩

/-- Nobody but the keeper changes the library. -/
theorem store_of_acts {t : Task 0} (acts : m.Acts t m') (ht : t ≠ .fan) : m'.store = m.store := by
  rcases acts.store with hsame | ⟨s, hafter⟩
  · exact hsame
  · cases t with
    | fan => exact absurd rfl ht
    | lexer | parser => exact hafter
    | evaluator k | assembler k => exact k.elim0

/-- Each step keeps one more tree under the key or leaves the library as it is. -/
theorem HasKept.step {kept : List Node} (h : HasKept kept m) (hvalid : m.Valid Fit)
    (step : Step m m') : HasKept kept m' ∧ m'.store = m.store ∨
      ∃ node, HasKept (kept ++ [node]) m' ∧ m'.store = m.store.append job.key [node] := by
  obtain ⟨t, acts, apart⟩ := step.acts job.owns hvalid.taken_le
  by_cases ht : t = .fan
  · subst ht
    exact h.of_acts acts
  · refine .inl ⟨?_, store_of_acts acts ht⟩
    rw [HasKept, apart.heard _ (Ne.symm ht), apart.status _ (Ne.symm ht)]
    exact h.mono apart.raised

theorem Kept.step {before : List Node} (h : Kept before m) (hvalid : m.Valid Fit)
    (step : Step m m') :
    Kept before m' ∧ ∀ key, key ≠ job.key → m'.store.get? key = m.store.get? key := by
  obtain ⟨kept, hstore, hkept⟩ := h
  rcases hkept.step hvalid step with ⟨hkept', hsame⟩ | ⟨node, hkept', hadded⟩
  · rw [Kept, hsame]
    exact ⟨⟨kept, hstore, hkept'⟩, fun _ _ => rfl⟩
  · rw [Kept, hadded]
    refine ⟨⟨kept ++ [node], ?_, hkept'⟩, fun key hkey => ?_⟩
    · rw [TemplateLibrary.get?_append, if_pos rfl, hstore, Option.getD_some, List.append_assoc]
    · exact (TemplateLibrary.get?_append _ _ _ _).trans (if_neg hkey)

theorem heard_tokens_le (h : m.Valid Fit) : m.heard .parser .tokens <+: tokens job.source := by
  obtain ⟨spent, s, hran, _, _⟩ := h.faithful .lexer
  exact (h.heard_le_said writes_tokens rfl).trans (lexed_of_ran hran).le

/-- Once no more tokens will come, the source has been read without a fault. -/
theorem tokens_of_closed (h : m.Valid Fit) (hclosed : m.Closed Fit .tokens) :
    tokenize job.source = .ok (m.heard .parser .tokens) := by
  obtain ⟨hover, hcompleted⟩ := hclosed
  obtain ⟨spent, s, store, after, hran, _, hstop⟩ := hcompleted .lexer trivial
  rw [h.heard_eq_said writes_tokens rfl hover]
  exact (lexed_of_ran hran).stop (congrArg Prod.fst hstop)

/-- The keeper has heard of no other trees than those before the first fault. -/
theorem heard_nodes_le (h : m.Valid Fit) :
    m.heard .fan .nodes <+: (Template.Reading.ofSource job.source).trees := by
  obtain ⟨spent, s, hran, _, _⟩ := h.faithful .parser
  exact (h.heard_le_said writes_nodes rfl).trans
    ((parsed_of_ran hran).le_trees (heard_tokens_le h))

/-- Where nobody has failed the source has been read to its end, and the keeper has heard of all. -/
theorem read_of_calm (h : m.Valid Fit) (hfinished : m.Finished) (hcalm : m.raised = false) :
    Template.read job.source = .ok (m.heard .fan .nodes) := by
  obtain ⟨spent, s, store, after, hran, hover, _, hstop⟩ := h.stopped hcalm (hfinished .parser)
  obtain rfl := eq_of_parse_stop (congrArg Prod.fst hstop)
  obtain ⟨spent', s', store', after', hran', hover', _, hstop'⟩ :=
    h.stopped hcalm (hfinished .fan)
  have hended := spent_of_ran hran' (eq_of_keep_stop (congrArg Prod.fst hstop'))
  have hparsed : Parsed (m.heard .parser .tokens) (spent .tokens) (m.said .parser .nodes)
      .finished := parsed_of_ran hran
  rw [h.heard_eq_said writes_nodes rfl (hover' _ hended).1]
  exact hparsed.read fun ended => tokens_of_closed h (hover _ ended)

/-- A task fails only where the source cannot be read. -/
theorem fault_of_ended (h : m.Valid Fit) {t : Task 0} {cause : Failure}
    (hfailed : m.status t = .ended (some cause)) :
    ¬ ∃ nodes, Template.read job.source = .ok nodes := by
  rintro ⟨nodes, hread⟩
  obtain ⟨spent, s, hran, hover, hstands⟩ := h.faithful t
  rw [Moment.Stands, hfailed] at hstands
  obtain ⟨_, store, after, _, moves⟩ := hstands
  -- only the lexer and the parser have moves that fail
  have hfail := congrArg Prod.fst moves
  cases t with
  | lexer =>
    obtain ⟨e, -, hlex⟩ := (lexed_of_ran hran).fail hfail
    rw [Template.read, hlex] at hread
    cases hread
  | parser =>
    obtain ⟨e, rfl, -⟩ := eq_of_parse_fail hfail
    have hparsed : Parsed (m.heard .parser .tokens) (spent .tokens) (m.said .parser .nodes)
        (.refused e) := parsed_of_ran hran
    have hfault := hparsed.fault (heard_tokens_le h) fun ended => tokens_of_closed h (hover _ ended)
    rw [Template.ofSource_of_read hread] at hfault
    cases hfault
  | fan => cases s <;> cases hfail
  | evaluator k | assembler k => exact k.elim0

inductive Ends (job : TemplateJob) (m : Moment job.network) : Except Failure Unit → Prop
  | failed {t : Task 0} {cause : Failure} (h : m.status t = .ended (some cause)) :
    Ends job m (.error (cause.located (.ofText job.key)))
  | done (h : ∀ t, m.status t = .ended none) : Ends job m (.ok ())

def before (job : TemplateJob) (library : TemplateLibrary) : List Node :=
  (library.get? job.key).getD []

theorem valid_opening (library : TemplateLibrary) : (job.opening library).Valid Fit :=
  Moment.valid_first job.sound trivial

theorem hasKept_opening (library : TemplateLibrary) : HasKept [] (job.opening library) := by
  have hheard : (job.opening library).heard .fan .nodes = [] := by
    rw [Moment.heard]
    split <;> rfl
  rw [HasKept, hheard]
  rfl

/-- A template that has been read without a failure has been kept as a whole. -/
theorem HasKept.whole {kept : List Node} (h : HasKept kept m) (hvalid : m.Valid Fit)
    (hended : ∀ t, m.status t = .ended none) : Template.read job.source = .ok kept := by
  have hfinished : m.Finished := by
    intro t
    rw [hended t]
    rfl
  have hcalm := hvalid.calm_of_ended hended
  rw [HasKept, hended .fan] at h
  rw [read_of_calm hvalid hfinished hcalm, h.2 hcalm]

theorem Kept.whole {before : List Node} (h : Kept before m) (hvalid : m.Valid Fit)
    (hended : ∀ t, m.status t = .ended none) :
    ∃ nodes, Template.read job.source = .ok nodes ∧
      m.store.get? job.key = some (before ++ nodes) := by
  obtain ⟨kept, hstore, hkept⟩ := h
  exact ⟨kept, hkept.whole hvalid hended, hstore⟩

/-- At any moment the library has some of the first trees of the source. -/
theorem Kept.part {before : List Node} (h : Kept before m) (hvalid : m.Valid Fit) :
    ∃ kept, kept <+: (Template.Reading.ofSource job.source).trees ∧
      m.store.get? job.key = some (before ++ kept) := by
  obtain ⟨kept, hstore, hkept⟩ := h
  exact ⟨kept, hkept.le.trans (heard_nodes_le hvalid), hstore⟩

theorem Ends.exists (hfinished : m.Finished) : ∃ result, job.Ends m result := by
  rcases hfinished.outcome with ⟨t, cause, hfailed⟩ | hended
  · exact ⟨_, .failed hfailed⟩
  · exact ⟨_, .done hended⟩

/-- A template is there as a whole just if it can be read as a whole. -/
theorem Ends.whole {before : List Node} {result : Except Failure Unit} (h : job.Ends m result)
    (hvalid : m.Valid Fit) (hkept : Kept before m) :
    (result = .ok () ↔ ∃ nodes, Template.read job.source = .ok nodes) ∧
      ∀ nodes, Template.read job.source = .ok nodes →
        m.store.get? job.key = some (before ++ nodes) := by
  cases h with
  | failed hfailed =>
    have hnot := fault_of_ended hvalid hfailed
    exact ⟨⟨nofun, fun hread => absurd hread hnot⟩, fun nodes hread => absurd ⟨nodes, hread⟩ hnot⟩
  | done hended =>
    obtain ⟨nodes, hread, hstore⟩ := hkept.whole hvalid hended
    refine ⟨⟨fun _ => ⟨nodes, hread⟩, fun _ => rfl⟩, fun others hothers => ?_⟩
    rwa [Except.ok.inj (hothers.symm.trans hread)]

/-- Reading a template never gets stuck. -/
theorem progress (hvalid : m.Valid Fit) : m.Finished ∨ ∃ next, Step m next := by
  by_cases hfinished : m.Finished
  · exact .inl hfinished
  · exact .inr (hvalid.progress job.sound job.layered (job.roomy m) hfinished)

end TemplateJob
end PageTemplate
