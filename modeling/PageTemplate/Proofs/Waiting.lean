import PageTemplate.Proofs.Keeping

namespace PageTemplate

open Network Stages

namespace Job

variable {job : Job} {store : ExportStore} {m : Moment job.network}

def pending {n : Nat} : (t : Task n) → Stages.State t → Nat
  | .assembler _, .collecting _ | .assembler _, .holding _ => 1
  | _, _ => 0

/-- Each assembler hands over one page, nobody else any. -/
def quota (job : Job) : job.network.Quota .pages where
  left := pending
  spends
    | .lexer, _, s => .of_within (lex_within s) id
    | .parser, _, s => .of_within (parse_within s) id
    | .fan, _, s => .of_within (fanOut_within s) id
    | .evaluator k, store, s =>
      .of_within (evaluate_within job.world (job.document k) k store s) id
    | .assembler _, _, .collecting _ => ⟨fun _ => Nat.le_refl 1, Nat.le_refl 1⟩
    | .assembler _, _, .holding _ => Nat.le_refl 1
    | .assembler _, _, .finished => trivial

/-- At the beginning there are as many pages to come as a file has. -/
theorem quota_first (job : Job) (store : ExportStore) :
    job.quota.total (.first job.network store) = job.pages := by
  have hnone : ∀ t ∉ Finset.univ.image (Task.assembler : Fin job.pages → Task job.pages),
      job.quota.due t ((Moment.first job.network store).status t) = 0 := by
    intro t ht
    cases t with
    | lexer | parser | evaluator k => rfl
    | fan =>
      cases hpresent : job.network.present .fan <;> simp only [Moment.first, hpresent] <;> rfl
    | assembler k => exact absurd (Finset.mem_image_of_mem _ (Finset.mem_univ k)) ht
  calc job.quota.total (.first job.network store)
      = ∑ t, job.quota.due t ((Moment.first job.network store).status t) := Nat.zero_add _
    _ = ∑ t ∈ Finset.univ.image Task.assembler,
          job.quota.due t ((Moment.first job.network store).status t) :=
        (Finset.sum_subset (Finset.subset_univ _) fun t _ ht => hnone t ht).symm
    _ = ∑ k : Fin job.pages,
          job.quota.due (.assembler k) ((Moment.first job.network store).status (.assembler k)) :=
        Finset.sum_image fun j _ k _ heq => Task.assembler.inj heq
    _ = ∑ _k : Fin job.pages, 1 := rfl
    _ = job.pages := (Finset.card_eq_sum_ones _).symm.trans (Finset.card_fin _)

/-- No page waits for room in the last channel. -/
theorem roomy (steps : Steps (.first job.network store) m) : m.Roomy := by
  intro t s w item next store' hs hmove hreader
  cases w with
  | tokens | nodes | branch k | texts k => cases hreader
  | pages =>
    have htotal := job.quota.steps_le steps
    rw [quota_first] at htotal
    exact job.quota.room (htotal.trans (Nat.le_max_left _ _)) hs hmove

end Job

/-- Nobody puts anything into a channel without a reader. -/
theorem TemplateJob.roomy {job : TemplateJob} (m : Moment job.network) : m.Roomy := by
  intro t s w item next library hs hmove hreader
  have howns := job.owns t m.store s
  rw [hmove] at howns
  cases w with
  | tokens | nodes => cases hreader
  | branch k | texts k => exact k.elim0
  | pages =>
    cases t with
    | assembler k => exact k.elim0
    | lexer | parser | fan | evaluator k => exact howns.elim

/-- Until all tasks have ended there is one that nothing holds up, and it has a step to take:
neither a file nor a template can deadlock, at whatever moment and whatever has failed by then. -/
theorem no_run_gets_stuck :
    (∀ (job : Job) (store : ExportStore) (m : Moment job.network),
      Steps (.first job.network store) m → m.Finished ∨
        ∃ t, m.Able t ∧ ∃ next, Step m next ∧ ∀ q, q ≠ t → next.status q = m.status q) ∧
    ∀ (job : TemplateJob) (library : TemplateLibrary) (m : Moment job.network),
      Steps (.first job.network library) m → m.Finished ∨
        ∃ t, m.Able t ∧ ∃ next, Step m next ∧ ∀ q, q ≠ t → next.status q = m.status q := by
  refine ⟨fun job store m steps => ?_, fun job library m steps => ?_⟩
  · refine Classical.or_iff_not_imp_left.2 fun hunfinished => ?_
    obtain ⟨t, hable⟩ := Moment.exists_able job.owns job.layered (job.roomy steps) hunfinished
    exact ⟨t, hable, hable.step (Moment.taken_le_of_steps steps)⟩
  · refine Classical.or_iff_not_imp_left.2 fun hunfinished => ?_
    obtain ⟨t, hable⟩ := Moment.exists_able job.owns job.layered (job.roomy m) hunfinished
    exact ⟨t, hable, hable.step (Moment.taken_le_of_steps steps)⟩

end PageTemplate
