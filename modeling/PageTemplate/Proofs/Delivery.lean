import PageTemplate.Proofs.Outcomes
import PageTemplate.Proofs.Waiting

namespace PageTemplate

open Network Stages

structure Outcome (ρ : Type) where
  result : Except Failure Unit
  handed : List Page
  renderer : ρ

namespace Job

def handOver {ρ : Type} (render : Page → ρ → Option FileFault × ρ) (input : Path) :
    List Page → ρ → Outcome ρ
  | [], state => ⟨.ok (), [], state⟩
  | page :: rest, state =>
    match render page state with
    | (some fault, after) => ⟨.error ((Failure.io page.path fault).located input), [page], after⟩
    | (none, after) =>
      let later := handOver render input rest after
      { later with handed := page :: later.handed }

def inOrder (arrived : List (Nat × Page)) : List Page :=
  (arrived.mergeSort fun a b => a.1 ≤ b.1).map Prod.snd

/-- What a file can come to when all its tasks have ended. If some of them have failed any of their
failures may be the one that is seen. -/
inductive Ends {ρ : Type} (job : Job) (render : Page → ρ → Option FileFault × ρ) (idle : ρ)
    (m : Moment job.network) : Outcome ρ → Prop
  | failed {t : Stages.Task job.pages} {cause : Failure} (h : m.status t = .ended (some cause)) :
    Ends job render idle m ⟨.error (cause.located job.input), [], idle⟩
  | done (h : ∀ t, m.status t = .ended none) :
    Ends job render idle m
      (handOver render job.input (inOrder ((m.sent .pages).map Prod.snd)) idle)

/-- Pages that arrive in any order are sorted into the order of their numbers. -/
theorem inOrder_eq {n : Nat} {arrived : List (Nat × Page)} (page : Fin n → Page)
    (h : arrived.Perm ((List.finRange n).map fun k => (k.val, page k))) :
    inOrder arrived = (List.finRange n).map page := by
  have hperm := (List.mergeSort_perm arrived fun a b => a.1 ≤ b.1).trans h
  have hsorted : (arrived.mergeSort fun a b => a.1 ≤ b.1).Pairwise fun a b => a.1 ≤ b.1 := by
    have hpairwise := @List.pairwise_mergeSort (Nat × Page) (fun a b => decide (a.1 ≤ b.1))
      (fun a b c hab hbc =>
        decide_eq_true (Nat.le_trans (of_decide_eq_true hab) (of_decide_eq_true hbc)))
      (fun a b => by simp only [Bool.or_eq_true, decide_eq_true_eq]; omega) arrived
    exact hpairwise.imp of_decide_eq_true
  have hnumbers :
      ((List.finRange n).map fun k => (k.val, page k)).Pairwise fun a b => a.1 ≤ b.1 := by
    rw [List.pairwise_map]
    exact (List.pairwise_le_finRange n).imp id
  -- no number comes twice, so sorting leaves no choice
  have hsame : ∀ a b : Nat × Page, a ∈ arrived.mergeSort (fun a b => a.1 ≤ b.1) →
      b ∈ (List.finRange n).map (fun k => (k.val, page k)) → a.1 ≤ b.1 → b.1 ≤ a.1 → a = b := by
    intro a b ha hb hab hba
    obtain ⟨j, _, rfl⟩ := List.mem_map.1 (hperm.subset ha)
    obtain ⟨k, _, rfl⟩ := List.mem_map.1 hb
    obtain rfl : j = k := Fin.ext (Nat.le_antisymm hab hba)
    rfl
  rw [inOrder, hperm.eq_of_pairwise hsame hsorted hnumbers, List.map_map]
  rfl

section Tags

variable {T A : Type} [DecidableEq T] {sent : List (T × A)}

/-- Items with tags of which none comes twice. -/
theorem nodup_tags (h : ∀ t, (sent.filter fun entry => entry.1 = t).length ≤ 1) :
    (sent.map Prod.fst).Nodup := by
  rw [List.nodup_iff_count]
  intro t
  rw [List.count_eq_countP, List.countP_map, List.countP_eq_length_filter]
  exact h t

/-- Where each writer has put in one item, the items are those of all writers in some order. -/
theorem perm_of_tags {n : Nat} {tag : Fin n → T} (htag : Function.Injective tag) {item : Fin n → A}
    (htags : ∀ entry ∈ sent, ∃ k, entry.1 = tag k)
    (hitems : ∀ k, (sent.filter fun entry => entry.1 = tag k).map Prod.snd = [item k]) :
    (sent.map Prod.snd).Perm ((List.finRange n).map item) := by
  -- a tag in use comes once, any other never
  have hone : ∀ t, (sent.filter fun entry => entry.1 = t).length ≤ 1 := by
    intro t
    by_cases ht : ∃ k, t = tag k
    · obtain ⟨k, rfl⟩ := ht
      have hlength := congrArg List.length (hitems k)
      rw [List.length_map] at hlength
      exact Nat.le_of_eq hlength
    · have hnone : (sent.filter fun entry => entry.1 = t) = [] := by
        apply List.filter_eq_nil_iff.2
        intro entry hentry hyes
        obtain ⟨k, hk⟩ := htags entry hentry
        exact ht ⟨k, (of_decide_eq_true hyes).symm.trans hk⟩
      rw [hnone]
      exact Nat.zero_le 1
  have hsent : sent.Nodup := (nodup_tags hone).of_map _
  have hall : ((List.finRange n).map fun k => (tag k, item k)).Nodup :=
    (List.nodup_finRange n).map fun j k h => htag (Prod.mk.inj h).1
  have hperm : sent.Perm ((List.finRange n).map fun k => (tag k, item k)) := by
    rw [List.perm_ext_iff_of_nodup hsent hall]
    intro entry
    constructor
    · intro hentry
      obtain ⟨k, hk⟩ := htags entry hentry
      have hitem : entry.2 ∈ (sent.filter fun entry => entry.1 = tag k).map Prod.snd :=
        List.mem_map_of_mem (List.mem_filter.2 ⟨hentry, decide_eq_true hk⟩)
      rw [hitems k] at hitem
      refine List.mem_map.2 ⟨k, List.mem_finRange k, ?_⟩
      exact Prod.ext hk.symm (List.mem_singleton.1 hitem).symm
    · intro hentry
      obtain ⟨k, _, rfl⟩ := List.mem_map.1 hentry
      have hitem : item k ∈ (sent.filter fun entry => entry.1 = tag k).map Prod.snd := by
        rw [hitems k]
        exact List.mem_singleton_self _
      obtain ⟨other, hother, hsnd⟩ := List.mem_map.1 hitem
      obtain ⟨hmem, hfst⟩ := List.mem_filter.1 hother
      have hsame : other = (tag k, item k) := Prod.ext (of_decide_eq_true hfst) hsnd
      rwa [hsame] at hmem
  have hsnd := hperm.map Prod.snd
  rw [List.map_map] at hsnd
  exact hsnd

end Tags

variable {job : Job} {m : Moment job.network}

theorem writes_pages (q : Stages.Task job.pages) (h : job.network.writes q .pages) :
    ∃ k, q = .assembler k := by
  cases q with
  | assembler k => exact ⟨k, rfl⟩
  | lexer | parser | fan | evaluator k => exact h.elim

/-- The pages in the last channel when nobody has failed. -/
theorem makes_of_calm (h : m.Valid job.Fit) (hconfined : job.Confined)
    (hfinished : m.Finished) (hcalm : m.raised = false) :
    job.Makes (inOrder ((m.sent .pages).map Prod.snd)) := by
  have hpages := page_of_calm h hconfined hfinished hcalm
  choose texts htexts hsaid using hpages
  have hinjective : Function.Injective (Task.assembler : Fin job.pages → Stages.Task job.pages) :=
    fun j k hjk => Task.assembler.inj hjk
  have hperm := perm_of_tags hinjective
    (fun entry hentry => writes_pages entry.1 (h.writers .pages entry hentry)) hsaid
  exact ⟨job.fed (m.said .parser), read_of_calm h hfinished hcalm, texts, htexts,
    inOrder_eq (fun k => job.page k (texts k)) hperm⟩

/-- A run that is over has come to something. -/
theorem Ends.exists {ρ : Type} (render : Page → ρ → Option FileFault × ρ) (idle : ρ)
    (hfinished : m.Finished) : ∃ outcome, job.Ends render idle m outcome := by
  rcases hfinished.outcome with ⟨t, cause, hfailed⟩ | hended
  · exact ⟨_, .failed hfailed⟩
  · exact ⟨_, .done hended⟩

/-- A task that has failed has met a failure of the file. -/
theorem raises_of_ended (h : m.Valid job.Fit) (hconfined : job.Confined)
    {t : Stages.Task job.pages} {cause : Failure} (hfailed : m.status t = .ended (some cause)) :
    job.Raises cause := by
  obtain ⟨spent, s, hran, hover, hstands⟩ := h.faithful t
  rw [Moment.Stands, hfailed] at hstands
  obtain ⟨_, store, after, hfit, hmove⟩ := hstands
  exact raises_of_fail h hconfined hran hover hfit hmove

/-- In whatever order the tasks of a file move, they come to an end. If the file can be read and
each of its pages evaluated by itself, then no task fails and the renderer is given just these
pages, in their order; if not, the file comes to a failure that is met in reading or evaluating it
by itself, and the renderer is given nothing. -/
theorem runs_make_pages (job : Job) {ρ : Type} (render : Page → ρ → Option FileFault × ρ) (idle : ρ)
    (homits : job.world.Omits job.input) (hbuiltins : job.world.builtins.Confined) :
    Acc (fun after before : Moment job.network => Step before after)
        (Moment.first job.network job.linked) ∧
      (∀ m, Steps (Moment.first job.network job.linked) m → m.Finished ∨ ∃ next, Step m next) ∧
      ∀ last, Steps (Moment.first job.network job.linked) last → last.Finished →
        (∃ outcome, job.Ends render idle last outcome) ∧
        ∀ outcome, job.Ends render idle last outcome →
          (∀ pages, job.Makes pages → (∀ t, last.status t = .ended none) ∧
            outcome = handOver render job.input pages idle) ∧
          ((¬ ∃ pages, job.Makes pages) →
            ∃ e, job.Raises e ∧ outcome = ⟨.error (.inFile job.input e), [], idle⟩) := by
  have hconfined := confined_of_omits homits hbuiltins
  have hsound := sound hconfined
  -- the invariant carries everything: progress, the causes of failures, and the pages in the end
  have hvalid : ∀ m, Steps (Moment.first job.network job.linked) m → m.Valid job.Fit :=
    fun m steps => (Moment.valid_first hsound (fit_linked job)).steps hsound steps
  refine ⟨Moment.acc job.effort _, fun m steps => ?_, fun last steps hfinished => ?_⟩
  · by_cases hfinished : m.Finished
    · exact .inl hfinished
    · exact .inr ((hvalid m steps).progress hsound job.layered (job.roomy steps) hfinished)
  · have h := hvalid last steps
    refine ⟨Ends.exists render idle hfinished, fun outcome hends => ?_⟩
    refine ⟨fun pages hmakes => ?_, fun hnot => ?_⟩
    -- a file with all its pages can come to no failure
    · cases hends with
      | failed hfailed => exact absurd (raises_of_ended h hconfined hfailed) hmakes.not_raises
      | done hended =>
        have hall := makes_of_calm h hconfined hfinished (h.calm_of_ended hended)
        rw [hmakes.unique hall]
        exact ⟨hended, rfl⟩
    -- a file without them cannot come to an end in calm
    · cases hends with
      | failed hfailed =>
        have hraises := raises_of_ended h hconfined hfailed
        rw [hraises.located]
        exact ⟨_, hraises, rfl⟩
      | done hended =>
        exact absurd ⟨_, makes_of_calm h hconfined hfinished (h.calm_of_ended hended)⟩ hnot

/-- A file with a page for each of two content files. -/
def spread : Job where
  setting :=
    { listing := fun _ => .ok [.ofText "content/a.html", .ofText "content/b.html"]
      map := ⟨.ofText "pages", .ofText "out"⟩ }
  stores := { templates := TemplateLibrary.empty.append "t" [.leaf (.text "page ") ⟨1, 1⟩] }
  input := .ofText "pages/index.html"
  source := "\x7b\x7b: paginate(\"a\", \"t\", 1) \x7d\x7d\x7b\x7b: curPage \x7d\x7d"
  post := fun _ text => text
  capacity := 1
  capacity_pos := Nat.one_pos

theorem runs_make_pages_of_spread :
    spread.Makes [⟨.ofText "out/index.html", "page 1"⟩, ⟨.ofText "out/index_002.html", "page 2"⟩] ∧
      ∀ last, Steps (Moment.first spread.network spread.linked) last → last.Finished →
        ∀ outcome, spread.Ends (fun _ handed => (none, handed + 1)) 0 last outcome →
          outcome =
            ⟨.ok (), [⟨.ofText "out/index.html", "page 1"⟩,
              ⟨.ofText "out/index_002.html", "page 2"⟩], 2⟩ := by
  have homits : spread.world.Omits spread.input := by
    intro path files hfiles other hother
    obtain rfl := Except.ok.inj hfiles
    rcases List.mem_cons.1 hother with rfl | hother
    · decide +kernel
    · obtain rfl := List.mem_singleton.1 hother
      decide +kernel
  have hread : (Template.read spread.source).map (fun nodes =>
      ((spread.rendered 0 nodes).1, (spread.rendered 1 nodes).1)) =
        .ok (.ok "page 1", .ok "page 2") := by decide +kernel
  have hmakes : spread.Makes
      [⟨.ofText "out/index.html", "page 1"⟩, ⟨.ofText "out/index_002.html", "page 2"⟩] := by
    cases hnodes : Template.read spread.source with
    | error e =>
      rw [hnodes] at hread
      cases hread
    | ok nodes =>
      rw [hnodes] at hread
      obtain ⟨hfirst, hsecond⟩ := Prod.mk.inj (Except.ok.inj hread)
      have hpages : spread.pages = 2 := by decide +kernel
      refine ⟨nodes, hnodes, fun k => if k.val = 0 then "page 1" else "page 2", fun k => ?_, ?_⟩
      · dsimp only
        by_cases hk : k.val = 0
        · rw [if_pos hk, hk]
          exact hfirst
        · have hone : k.val = 1 := by have := k.isLt; omega
          rw [if_neg hk, hone]
          exact hsecond
      · decide +kernel
  refine ⟨hmakes, fun last steps hfinished outcome hends => ?_⟩
  have hruns := (runs_make_pages spread (fun _ handed => (none, handed + 1)) 0 homits
    Builtins.confined_prelude).2.2 last steps hfinished
  rw [((hruns.2 outcome hends).1 _ hmakes).2]
  rfl

end Job
end PageTemplate
