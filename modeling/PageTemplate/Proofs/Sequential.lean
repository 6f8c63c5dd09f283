import PageTemplate.Proofs.Interleavings
import PageTemplate.Proofs.Outcomes

namespace PageTemplate

namespace Job

variable {job : Job}

/-- Pages in the making, from a number on, that have got the same trees. What a draft itself says
about exports does not count. -/
inductive Filled (job : Job) (trees : List Node) : Nat → List Draft → Prop
  | nil (k : Nat) : Filled job trees k []
  | cons {k : Nat} {draft : Draft} {rest : List Draft} {exports : ExportStore}
    (document : draft.document = job.document k)
    (rendered : job.Rendered k trees draft.text { draft.session with exports := exports })
    (more : Filled job trees (k + 1) rest) : Filled job trees k (draft :: rest)

/-- At the beginning all pages are blank. -/
theorem Filled.first (job : Job) (k n : Nat) :
    job.Filled [] k ((List.range' k n).map fun i => Draft.blank (job.document i)) := by
  induction n generalizing k with
  | zero => exact .nil k
  | succ n ih =>
    have hfirst : job.Rendered k [] (Draft.blank (job.document k)).text
        { (Draft.blank (job.document k)).session with exports := job.linked } :=
      Rendered.first job k
    exact .cons rfl hfirst (ih (k + 1))

/-- One more tree on each page, up to the first page that fails. -/
theorem Filled.addToEach {trees : List Node} {k : Nat} {drafts : List Draft} {exports : ExportStore}
    (h : job.Filled trees k drafts) (hfit : job.Fit exports) {node : Node} (hconfined :
      ∀ k, Eval.Confined job.input (Evaluation.render job.world (job.document k) node)) :
    match Draft.addToEach job.world node drafts exports with
    | (.ok after, last) => job.Filled (trees ++ [node]) k after ∧ job.Fit last ∧
        after.length = drafts.length
    | (.error e, _) => ∃ j, j < k + drafts.length ∧
        (job.rendered j (trees ++ [node])).1 = .error e := by
  induction h generalizing exports with
  | nil k => exact ⟨.nil k, hfit, rfl⟩
  | @cons k draft rest _ document rendered more ih =>
    rcases hrun : (Evaluation.render job.world (job.document k) node).run
      { draft.session with exports := exports } with ⟨result, after⟩
    obtain ⟨herror, hnext⟩ := rendered.next (hconfined k) hfit hrun
    have hkeeps := ((hconfined k).keeps { draft.session with exports := exports }).1
    rw [hrun] at hkeeps
    have hadd : draft.add job.world node exports =
        (result.map fun text => { draft with session := after, text := draft.text ++ text },
          after.exports) := by
      rw [Draft.add, document, hrun]
    rw [Draft.addToEach, hadd]
    cases result with
    | error e =>
      refine ⟨k, ?_, herror⟩
      rw [List.length_cons]
      omega
    | ok text =>
      -- the later pages find the exports as this one has left them
      have hlater := @ih after.exports
        (fun other hother => (hfit other hother).trans (hkeeps other hother))
      simp only [Except.map]
      rcases heach : Draft.addToEach job.world node rest after.exports with ⟨filled, last⟩
      rw [heach] at hlater
      cases filled with
      | error e =>
        obtain ⟨j, hj, herror⟩ := hlater
        refine ⟨j, ?_, herror⟩
        rw [List.length_cons]
        omega
      | ok filled =>
        obtain ⟨hfilled, hlast, hlength⟩ := hlater
        exact ⟨.cons document (hnext text rfl) hfilled, hlast, congrArg (· + 1) hlength⟩

/-- All trees, up to the first page that fails at one of them. -/
theorem Filled.addAll {nodes trees : List Node} {drafts : List Draft} {exports : ExportStore}
    (h : job.Filled trees 0 drafts) (hfit : job.Fit exports) (hconfined : job.Confined)
    (hnodes : nodes ⊆ job.trees) :
    match Draft.addAll job.world nodes drafts exports with
    | (.ok after, _) => job.Filled (trees ++ nodes) 0 after ∧ after.length = drafts.length
    | (.error e, _) => ∃ j, j < drafts.length ∧ (job.rendered j (trees ++ nodes)).1 = .error e := by
  induction nodes generalizing trees drafts exports with
  | nil =>
    rw [Draft.addAll, List.append_nil]
    exact ⟨h, rfl⟩
  | cons node nodes ih =>
    obtain ⟨hnode, hrest⟩ := List.cons_subset.1 hnodes
    have heach := h.addToEach hfit fun k => hconfined k node hnode
    rw [Draft.addAll]
    rcases hrun : Draft.addToEach job.world node drafts exports with ⟨result, last⟩
    rw [hrun] at heach
    cases result with
    | error e =>
      obtain ⟨j, hj, herror⟩ := heach
      -- a draft that fails at this tree fails whatever trees follow
      refine ⟨j, by omega, ?_⟩
      rw [List.append_cons]
      exact rendered_error (List.prefix_append _ nodes) herror
    | ok after =>
      obtain ⟨hfilled, hlast, hlength⟩ := heach
      have hall := ih hfilled hlast hrest
      rw [List.append_cons, ← hlength]
      exact hall

/-- Pages that have got all trees are finished to the pages of the file. -/
theorem Filled.finish {trees : List Node} {k : Nat} {drafts : List Draft} {texts : Nat → String}
    (h : job.Filled trees k drafts) (hpost : ∀ path text, job.post path text =
      if job.setting.markdown then Markdown.process path text else text)
    (htexts : ∀ j text, (job.rendered j trees).1 = .ok text → texts j = text) :
    (∀ j, k ≤ j → j < k + drafts.length → (job.rendered j trees).1 = .ok (texts j)) ∧
      drafts.map (Rendering.finish job.setting) =
        (List.range' k drafts.length).map fun j => job.page j (texts j) := by
  induction h with
  | nil k =>
    refine ⟨fun j hle hlt => ?_, rfl⟩
    rw [List.length_nil] at hlt
    omega
  | @cons k draft rest _ document rendered more ih =>
    obtain ⟨⟨last, hrendered, _⟩, _, _⟩ := rendered
    have hresult := congrArg Prod.fst hrendered
    have htext := htexts k draft.text hresult
    have hpage : Rendering.finish job.setting draft = job.page k (texts k) := by
      rw [htext, Rendering.finish, page, hpost, document]
      rfl
    refine ⟨fun j hle hlt => ?_, ?_⟩
    · by_cases hj : j = k
      · rw [hj, htext]
        exact hresult
      · rw [List.length_cons] at hlt
        exact ih.1 j (by omega) (by omega)
    · rw [List.map_cons, List.length_cons, List.range'_succ, List.map_cons, ih.2, hpage]

/-- A fault of the source is a failure of the file. -/
theorem raises_of_fault {cause : Failure}
    (h : (Template.Reading.ofSource job.source).fault = some cause) : job.Raises cause := by
  have hreading := h
  rw [Template.Reading.ofSource, Template.Reading.ofLines_eq] at hreading
  split at hreading
  · cases hreading
    exact .parse h
  · split at hreading
    · next e hlines =>
      cases hreading
      exact .lex hlines
    · split at hreading
      · cases hreading
      · cases hreading
        exact .parse h

/-- There is one blank draft for each page, in the order of the numbers. -/
theorem drafts_eq (job : Job) : Rendering.drafts job.setting job.input job.pages =
    (List.range' 0 job.pages).map fun i => Draft.blank (job.document i) := by
  have hcount : ((job.pages : Int) + 1 - 1).toNat = job.pages := by omega
  rw [Rendering.drafts, Pagination.numbersBelow, hcount, List.map_map, List.range_eq_range']
  rfl

theorem length_drafts (job : Job) :
    (Rendering.drafts job.setting job.input job.pages).length = job.pages := by
  rw [drafts_eq, List.length_map, List.length_range']

theorem map_finRange (n : Nat) (page : Nat → Page) :
    (List.range' 0 n).map page = (List.finRange n).map fun k => page k.val := by
  apply List.ext_getElem
  · rw [List.length_map, List.length_map, List.length_range', List.length_finRange]
  · intro i hi hi'
    simp

/-- A failing tree decides before a fault further down does. -/
theorem renderFile_eq (job : Job) :
    (Rendering.renderFile job.setting job.stores job.input job.source).1 =
      match (Draft.addAll job.world job.trees (Rendering.drafts job.setting job.input job.pages)
        job.linked).1, (Template.Reading.ofSource job.source).fault with
      | .error e, _ => .error ((Failure.eval e).located job.input)
      | .ok _, some fault => .error (fault.located job.input)
      | .ok after, none => .ok (after.map (Rendering.finish job.setting)) := by
  unfold world trees pages linked
  simp only [Rendering.renderFile]
  cases (Draft.addAll (Rendering.world job.setting job.stores) _ _ _).1 with
  | error e => rfl
  | ok after => cases (Template.Reading.ofSource job.source).fault <;> rfl

/-- Without tasks a file has the pages that it has with them, or a failure that it can have with
them. -/
theorem renderFile_makes (job : Job) (homits : job.world.Omits job.input)
    (hbuiltins : job.world.builtins.Confined) (hpost : ∀ path text, job.post path text =
      if job.setting.markdown then Markdown.process path text else text) :
    match (Rendering.renderFile job.setting job.stores job.input job.source).1 with
    | .ok pages => job.Makes pages
    | .error e => ∃ cause, job.Raises cause ∧ e = .inFile job.input cause := by
  have hconfined := confined_of_omits homits hbuiltins
  have hall := @Filled.addAll job job.trees [] _ job.linked (Filled.first job 0 job.pages)
    (fit_linked job) hconfined (List.Subset.refl _)
  rw [← drafts_eq, List.nil_append] at hall
  rcases hfilled : Draft.addAll job.world job.trees
    (Rendering.drafts job.setting job.input job.pages) job.linked with ⟨filled, exports⟩
  rw [hfilled] at hall
  rw [renderFile_eq, hfilled]
  -- a tree that fails counts before a fault further down
  cases filled with
  | error e =>
    obtain ⟨j, hj, herror⟩ := hall
    rw [length_drafts] at hj
    exact ⟨.eval e, .eval hj herror, rfl⟩
  | ok after =>
    obtain ⟨hafter, hlength⟩ := hall
    cases hfault : (Template.Reading.ofSource job.source).fault with
    | some fault =>
      have hraises := raises_of_fault hfault
      exact ⟨fault, hraises, hraises.located⟩
    | none =>
      have htexts : ∀ j text, (job.rendered j job.trees).1 = .ok text →
          (job.rendered j job.trees).1.toOption.getD "" = text := by
        intro j text hok
        rw [hok]
        rfl
      obtain ⟨hrendered, hpages⟩ := hafter.finish hpost htexts
      rw [hlength, length_drafts] at hrendered hpages
      refine ⟨job.trees, Template.read_of_ofSource ?_,
        fun k => (job.rendered k job.trees).1.toOption.getD "", fun k => ?_, ?_⟩
      · rw [← hfault]
        rfl
      · exact hrendered k (Nat.zero_le _) (by have := k.isLt; omega)
      · rw [hpages, map_finRange]

end Job
end PageTemplate
