import PageTemplate.Proofs.Interleavings

namespace PageTemplate

open Network Stages

namespace Job

variable {job : Job} {m : Moment job.network}

/-- The failures of a file that is read and evaluated by itself. -/
inductive Raises (job : Job) : Failure → Prop
  | lex {e : LexError} (h : tokenize job.source = .error e) : Raises job (.lex e)
  | parse {e : ParseError} (h : (Template.Reading.ofSource job.source).fault = some (.parse e)) :
    Raises job (.parse e)
  | eval {k : Nat} {e : EvalError} (page : k < job.pages)
    (h : (job.rendered k job.trees).1 = .error e) : Raises job (.eval e)

/-- The pages of a file that is read as a whole, each of which is evaluated anew. -/
def Makes (job : Job) (pages : List Page) : Prop :=
  ∃ nodes, Template.read job.source = .ok nodes ∧ ∃ texts : Fin job.pages → String,
    (∀ k : Fin job.pages, (job.rendered k nodes).1 = .ok (texts k)) ∧
      pages = (List.finRange job.pages).map fun k : Fin job.pages => job.page k (texts k)

/-- A file makes its pages in one way only. -/
theorem Makes.unique {pages others : List Page} (h : job.Makes pages) (h' : job.Makes others) :
    pages = others := by
  obtain ⟨nodes, hread, texts, htexts, rfl⟩ := h
  obtain ⟨nodes', hread', texts', htexts', rfl⟩ := h'
  obtain rfl := Except.ok.inj (hread.symm.trans hread')
  have hsame : texts = texts' := by
    funext k
    exact Except.ok.inj ((htexts k).symm.trans (htexts' k))
  rw [hsame]

/-- A file with all its pages raises no failure. -/
theorem Makes.not_raises {pages : List Page} (h : job.Makes pages) {cause : Failure} :
    ¬ job.Raises cause := by
  obtain ⟨nodes, hread, texts, htexts, _⟩ := h
  have hreading := Template.ofSource_of_read hread
  intro hraises
  cases hraises with
  | lex hlex =>
    rw [Template.read, hlex] at hread
    cases hread
  | parse hparse =>
    rw [hreading] at hparse
    cases hparse
  | @eval k e hk heval =>
    rw [trees, hreading, htexts ⟨k, hk⟩] at heval
    cases heval

/-- A failure of a file is reported with its name, whatever has failed. -/
theorem Raises.located {cause : Failure} (h : job.Raises cause) :
    cause.located job.input = .inFile job.input cause := by
  cases h <;> rfl

theorem writes_texts {k : Fin job.pages} (q : Stages.Task job.pages)
    (h : job.network.writes q (.texts k)) : q = .evaluator k := by
  cases q with
  | evaluator j => exact congrArg Task.evaluator h
  | lexer | parser | fan | assembler j => exact h.elim

/-- A page that fails at some tree fails at it whatever comes after. -/
theorem rendered_error {k : Nat} {front trees : List Node} {e : EvalError} (hle : front <+: trees)
    (h : (job.rendered k front).1 = .error e) : (job.rendered k trees).1 = .error e := by
  obtain ⟨back, rfl⟩ := hle
  unfold rendered at h ⊢
  rw [Evaluation.run_renderAll_append]
  rcases hfront : (Evaluation.renderAll job.world (job.document k) front).run (job.session k) with
    ⟨result, after⟩
  rw [hfront] at h
  subst h
  rfl

/-- The lexer has handed on all tokens where the parser has found the end of them. -/
theorem tokens_of_closed (h : m.Valid job.Fit) (hclosed : m.Closed job.Fit .tokens) :
    tokenize job.source = .ok (m.heard .parser .tokens) := by
  obtain ⟨hover, hcompleted⟩ := hclosed
  obtain ⟨spent, s, store, after, hran, _, hstop⟩ := hcompleted .lexer trivial
  rw [h.heard_eq_said writes_tokens rfl hover]
  exact (lexed_of_ran hran).stop (congrArg Prod.fst hstop)

/-- A tree that fails on a page among others fails on the page alone. -/
theorem raises_of_rendering {k : Fin job.pages} (h : m.Valid job.Fit) (hconfined : job.Confined)
    {spent : Bool} {said : List String} {session : Session} {node : Node} {store : ExportStore}
    {cause : Failure}
    (hevaluated : job.Evaluated k (m.heard (.evaluator k) (.branch k)) spent said
      (.rendering session node)) (hfit : job.Fit store)
    (hfail : (@evaluate job.pages job.world (job.document k) k store (.rendering session node)).1 =
      .fail cause) : job.Raises cause := by
  have hle := heard_branch_le h k
  cases hevaluated with
  | @rendering front _ _ last rendered =>
    rcases hrun : (Evaluation.render job.world (job.document k) node).run
      { session with exports := store } with ⟨result, after⟩
    have hnode : node ∈ job.trees := hle.subset (last ▸ List.mem_concat_self)
    obtain ⟨hresult, -⟩ := rendered.next (hconfined k node hnode) hfit hrun
    -- the trees heard so far end in the one that fails, and they are the first ones of the source
    unfold evaluate at hfail
    simp only [hrun] at hfail
    split at hfail
    · cases hfail
    · cases hfail
    · next e _ heq =>
      cases hfail
      obtain ⟨rfl, rfl⟩ := Prod.mk.inj heq
      exact .eval k.isLt (rendered_error (last ▸ hle) hresult)

/-- A task fails only where the file by itself would fail. -/
theorem raises_of_fail (h : m.Valid job.Fit) (hconfined : job.Confined)
    {t : Stages.Task job.pages} {spent : Channel job.pages → Bool} {s : job.network.State t}
    {store after : ExportStore} {cause : Failure}
    (hran : Ran job.Fit t ⟨m.heard t, spent, m.said t⟩ s)
    (hover : ∀ w, spent w = true → m.Closed job.Fit w) (hfit : job.Fit store)
    (moves : job.network.move t store s = (.fail cause, after)) : job.Raises cause := by
  have hfail := congrArg Prod.fst moves
  cases t with
  | lexer =>
    obtain ⟨e, rfl, hlex⟩ := (lexed_of_ran hran).fail hfail
    exact .lex hlex
  | parser =>
    obtain ⟨e, rfl, rfl⟩ := eq_of_parse_fail hfail
    have hparsed :
        Parsed (m.heard .parser .tokens) (spent .tokens) (job.fed (m.said .parser)) (.refused e) :=
      parsed_of_ran hran
    -- the end that the parser has seen is the end of the source: no failure can look like it
    exact .parse (hparsed.fault (heard_tokens_le h) fun ended =>
      tokens_of_closed h (hover _ ended))
  | fan =>
    cases s with
    | reading many => cases hfail
    | finished => cases hfail
    | passing many node rest => cases rest <;> cases hfail
  | evaluator k =>
    cases s with
    | reading session => cases hfail
    | holding session text => cases hfail
    | finished => cases hfail
    | rendering session node =>
      exact raises_of_rendering h hconfined
        (evaluated_of_ran hconfined hran (heard_branch_le h k).subset) hfit hfail
  | assembler k => cases s <;> cases hfail

/-- Where nobody has failed the source has been read to its end. -/
theorem read_of_calm (h : m.Valid job.Fit) (hfinished : m.Finished) (hcalm : m.raised = false) :
    Template.read job.source = .ok (job.fed (m.said .parser)) := by
  obtain ⟨spent, s, store, after, hran, hover, _, hstop⟩ := h.stopped hcalm (hfinished .parser)
  obtain rfl := eq_of_parse_stop (congrArg Prod.fst hstop)
  have hparsed :
      Parsed (m.heard .parser .tokens) (spent .tokens) (job.fed (m.said .parser)) .finished :=
    parsed_of_ran hran
  exact hparsed.read fun ended => tokens_of_closed h (hover _ ended)

/-- And each page has been given all trees. -/
theorem heard_branch_of_calm (h : m.Valid job.Fit) (hfinished : m.Finished)
    (hcalm : m.raised = false) {k : Fin job.pages} (hover : m.Over (.branch k)) :
    m.heard (.evaluator k) (.branch k) = job.fed (m.said .parser) := by
  by_cases hone : job.pages = 1
  · have hk : (⟨0, by omega⟩ : Fin job.pages) = k := Fin.ext (by have := k.isLt; omega)
    rw [fed_of_one hone, hk]
    exact h.heard_eq_said (writes_branch_of_one hone) rfl hover
  · obtain ⟨spent, s, store, after, hran, hends, _, hstop⟩ := h.stopped hcalm (hfinished .fan)
    obtain rfl := eq_of_fanOut_stop (congrArg Prod.fst hstop)
    rw [fed_of_many hone, h.heard_eq_said (writes_branch_of_many hone) rfl hover]
    cases fanned_of_ran hone hran with
    | finished ended same =>
      exact (same k).trans (h.heard_eq_said writes_nodes rfl (hends _ ended).1)

/-- Where nobody has failed each page is there, with the text that it has by itself. -/
theorem page_of_calm (h : m.Valid job.Fit) (hconfined : job.Confined)
    (hfinished : m.Finished) (hcalm : m.raised = false) (k : Fin job.pages) :
    ∃ text, (job.rendered k (job.fed (m.said .parser))).1 = .ok text ∧
      m.said (.assembler k) .pages = [(k.val, job.page k text)] := by
  obtain ⟨spent, s, store, after, hran, hends, _, hstop⟩ :=
    h.stopped hcalm (hfinished (.evaluator k))
  have hheard := (heard_branch_le h k).subset
  obtain rfl := finished_of_evaluate_stop hconfined hran hheard (congrArg Prod.fst hstop)
  obtain ⟨spent', s', store', after', hran', hends', _, hstop'⟩ :=
    h.stopped hcalm (hfinished (.assembler k))
  obtain rfl := eq_of_assemble_stop (congrArg Prod.fst hstop')
  have hevaluated : job.Evaluated k (m.heard (.evaluator k) (.branch k)) (spent (.branch k))
      (m.said (.evaluator k) (.texts k)) .finished := evaluated_of_ran hconfined hran hheard
  have hassembled : job.Assembled k (m.heard (.assembler k) (.texts k)) (spent' (.texts k))
      (m.said (.assembler k) .pages) .finished := assembled_of_ran hran'
  cases hevaluated with
  | finished ended rendered =>
    rw [heard_branch_of_calm h hfinished hcalm (hends _ ended).1] at rendered
    obtain ⟨⟨last, hrendered, _⟩, _, _⟩ := rendered
    cases hassembled with
    | finished ended' all =>
      rw [h.heard_eq_said writes_texts rfl (hends' _ ended').1] at all
      exact ⟨_, congrArg Prod.fst hrendered, all⟩

end Job
end PageTemplate
