import PageTemplate.Proofs.StageRuns

namespace PageTemplate

open Network Stages

namespace Stages

variable {n : Nat}

theorem eq_of_fanOut_stop {s : Fanning n} (h : fanOut s = .stop) : s = .finished := by
  cases s with
  | finished => rfl
  | reading many => cases h
  | passing many node rest => cases rest <;> cases h

theorem eq_of_assemble_stop {k : Fin n} {page : String → Page} {s : Assembling}
    (h : assemble k page s = .stop) : s = .finished := by
  cases s with
  | finished => rfl
  | collecting text => cases h
  | holding item => cases h

/-- An evaluator that nobody tells to stop ends at the end of its input only. -/
theorem eq_of_evaluate_stop {world : World} {document : Document} {k : Fin n} {store : ExportStore}
    {s : Evaluating}
    (hconfined : ∀ session node, s = .rendering session node →
      Eval.Confined document.path (Evaluation.render world document node))
    (hcalm : ∀ session node, s = .rendering session node → session.patience = none)
    (h : (evaluate world document k store s).1 = .stop) : s = .finished := by
  cases s with
  | finished => rfl
  | reading session => cases h
  | holding session text => cases h
  | rendering session node =>
    unfold evaluate at h
    dsimp only at h
    split at h
    · cases h
    · next after hrun =>
      have hgoes := (hconfined session node rfl).goesOn { session with exports := store }
        (hcalm session node rfl)
      rw [hrun] at hgoes
      exact absurd rfl hgoes
    · cases h

end Stages

namespace Job

variable {job : Job} {m : Moment job.network}

/-- Each page has been given the first of the trees taken. -/
theorem Fanned.le {n : Nat} {heard : List Node} {spent : Bool} {said : Fin n → List Node}
    {s : Fanning n} (h : Fanned heard spent said s) (k : Fin n) : said k <+: heard := by
  cases h with
  | reading same | finished _ same =>
    rw [same k]
  | @passing _ front node rest last _ waiting served =>
    by_cases hk : k ∈ rest
    · rw [waiting k hk, last]
      exact List.prefix_append _ _
    · rw [served k hk]

theorem writes_branch_of_one (hone : job.pages = 1) {k : Fin job.pages} (q : Stages.Task job.pages)
    (h : job.network.writes q (.branch k)) : q = .parser := by
  cases q with
  | parser => rfl
  | fan => exact absurd hone h
  | lexer | evaluator k | assembler k => exact h.elim

theorem writes_branch_of_many (hmany : job.pages ≠ 1) {k : Fin job.pages}
    (q : Stages.Task job.pages) (h : job.network.writes q (.branch k)) : q = .fan := by
  cases q with
  | fan => rfl
  | parser => exact absurd h hmany
  | lexer | evaluator k | assembler k => exact h.elim

/-- The parser has heard of no other tokens than those of the source. -/
theorem heard_tokens_le (h : m.Valid job.Fit) :
    m.heard .parser .tokens <+: tokens job.source := by
  obtain ⟨spent, s, hran, _, _⟩ := h.faithful .lexer
  exact (h.heard_le_said writes_tokens rfl).trans (lexed_of_ran hran).le

/-- The parser has handed on the first of the trees of the source. -/
theorem fed_le (h : m.Valid job.Fit) : job.fed (m.said .parser) <+: job.trees := by
  obtain ⟨spent, s, hran, _, _⟩ := h.faithful .parser
  exact (parsed_of_ran hran).le_trees (heard_tokens_le h)

/-- A page is evaluated from the trees of the source, in their order. -/
theorem heard_branch_le (h : m.Valid job.Fit) (k : Fin job.pages) :
    m.heard (.evaluator k) (.branch k) <+: job.trees := by
  refine List.IsPrefix.trans ?_ (fed_le h)
  -- a single page hears the parser itself, several ones hear it through the fan
  by_cases hone : job.pages = 1
  · have hk : (⟨0, by omega⟩ : Fin job.pages) = k := Fin.ext (by have := k.isLt; omega)
    rw [fed_of_one hone, hk]
    exact h.heard_le_said (writes_branch_of_one hone) rfl
  · obtain ⟨spent, s, hran, _, _⟩ := h.faithful .fan
    rw [fed_of_many hone]
    refine (h.heard_le_said (writes_branch_of_many hone) rfl).trans ?_
    exact ((fanned_of_ran hone hran).le k).trans (h.heard_le_said writes_nodes rfl)

theorem fit_linked (job : Job) : job.Fit job.linked := fun _ _ => rfl

/-- The tree that an evaluator has in hand is one of the source. -/
theorem Evaluated.node_mem {k : Fin job.pages} {heard : List Node} {spent : Bool}
    {said : List String} {s : Evaluating} (h : job.Evaluated k heard spent said s)
    (hheard : heard ⊆ job.trees) :
    ∀ session node, s = .rendering session node → node ∈ job.trees ∧
      session.patience = none := by
  rintro session node rfl
  cases h with
  | rendering last rendered => exact ⟨hheard (last ▸ List.mem_concat_self), rendered.calm⟩

/-- What an evaluator exports is for no page of its own file. -/
theorem fit_evaluate {k : Fin job.pages} {store : ExportStore} (hconfined : job.Confined)
    (hfit : job.Fit store) {s : Evaluating}
    (hnode : ∀ session node, s = .rendering session node → node ∈ job.trees) :
    job.Fit (@evaluate job.pages job.world (job.document k) k store s).2 := by
  cases s with
  | finished => exact hfit
  | reading session => exact hfit
  | holding session text => exact hfit
  | rendering session node =>
    have hkeeps := ((hconfined k node (hnode session node rfl)).keeps
      { session with exports := store }).1
    have hafter :
        (@evaluate job.pages job.world (job.document k) k store (.rendering session node)).2 =
          ((Evaluation.render job.world (job.document k) node).run
            { session with exports := store }).2.exports := by
      unfold evaluate
      dsimp only
      split <;> next hrun => rw [hrun]
    rw [hafter]
    intro other hother
    exact (hfit other hother).trans (hkeeps other hother)

/-- An evaluator is not told to stop within a tree. -/
theorem finished_of_evaluate_stop {k : Fin job.pages} (hconfined : job.Confined)
    {h : History job.network} {s : Evaluating} {store : ExportStore}
    (ran : @Ran _ _ _ _ job.network job.Fit (.evaluator k) h s)
    (hheard : h.heard (.branch k) ⊆ job.trees)
    (hstop : (@evaluate job.pages job.world (job.document k) k store s).1 = .stop) :
    s = .finished := by
  have hinhand := (evaluated_of_ran hconfined ran hheard).node_mem hheard
  refine eq_of_evaluate_stop (fun session node hs => ?_) (fun session node hs => ?_) hstop
  · exact hconfined k node (hinhand session node hs).1
  · exact (hinhand session node hs).2

/-- The tasks of a file keep the rules of a network. -/
theorem sound (hconfined : job.Confined) : job.network.Sound job.Fit := by
  constructor
  case fit =>
    intro m t s h running
    cases t with
    | lexer | parser | fan | assembler k => exact h.fit
    | evaluator k =>
      obtain ⟨spent, hran, -⟩ := h.running running
      -- an evaluator keeps the store fit only for trees of the file
      have hheard := (heard_branch_le h k).subset
      have hinhand := (evaluated_of_ran hconfined hran hheard).node_mem hheard
      exact fit_evaluate hconfined h.fit fun session node hs => (hinhand session node hs).1
  case owns => exact job.owns
  case stops =>
    intro m t spent s store after w hpresent h ran hfit moves hreader
    have hinlet := inlet_of_reader hreader
    have hmove := congrArg Prod.fst moves
    cases t with
    | lexer => cases hinlet
    | parser =>
      cases hinlet
      obtain rfl := eq_of_parse_stop hmove
      cases parsed_of_ran ran with
      | finished ended => exact ended
    | fan =>
      cases hinlet
      obtain rfl := eq_of_fanOut_stop hmove
      cases fanned_of_ran (of_decide_eq_true hpresent) ran with
      | finished ended => exact ended
    | evaluator k =>
      cases hinlet
      have hheard := (heard_branch_le h k).subset
      obtain rfl := finished_of_evaluate_stop hconfined ran hheard hmove
      cases evaluated_of_ran hconfined ran hheard with
      | finished ended => exact ended
    | assembler k =>
      cases hinlet
      obtain rfl := eq_of_assemble_stop hmove
      cases assembled_of_ran ran with
      | finished ended => exact ended
  case absent =>
    intro t store hpresent
    cases t with
    | fan =>
      have hone : job.pages = 1 := Decidable.not_not.1 (of_decide_eq_false hpresent)
      have hstart : job.network.start .fan = (Fanning.finished : Fanning job.pages) := dif_pos hone
      rw [hstart]
      rfl
    | lexer | parser | evaluator k | assembler k => cases hpresent
  case wanted =>
    intro t r w hwrites hreader
    have hinlet := inlet_of_reader hreader
    cases r with
    | fan =>
      cases hinlet
      cases t with
      | parser => exact decide_eq_true hwrites
      | lexer | fan | evaluator k | assembler k => exact hwrites.elim
    | lexer | parser | evaluator k | assembler k => rfl

end Job
end PageTemplate
