import PageTemplate.Proofs.Confinement
import PageTemplate.Proofs.FrontEnd

/-!
What each task has made, at any moment, of what it has taken. Nothing is said about the others: a
task sees them only through its channels, and the exports that they change are not for this file.
-/

namespace PageTemplate

open Network Stages

namespace Evaluation

variable (world : World) (document : Document)

/-- Trees are evaluated one part after the other, up to the first failure. -/
theorem run_renderAll_append (front back : List Node) (session : Session) :
    (renderAll world document (front ++ back)).run session =
      match (renderAll world document front).run session with
      | (.error e, after) => (.error e, after)
      | (.ok text, after) => match (renderAll world document back).run after with
        | (.error e, last) => (.error e, last)
        | (.ok more, last) => (.ok (text ++ more), last) := by
  unfold renderAll
  -- the session goes through the front, so it varies in the induction
  induction front generalizing session with
  | nil =>
    rw [List.nil_append, renderNodes, Eval.run_pure]
    rcases hback : (renderNodes world document (inclusion world document) back).run session with
      ⟨result, last⟩
    cases result with
    | error e => simp only [hback]
    | ok more => simp only [hback, String.empty_append]
  | cons node front ih =>
    rw [List.cons_append, renderNodes, renderNodes, Eval.run_bind, Eval.run_bind]
    rcases (toText (evalNode world document (inclusion world document) node)).run session with
      ⟨result, middle⟩
    cases result with
    | error e => rfl
    | ok text =>
      simp only [Eval.run_bind, ih]
      rcases hfront : (renderNodes world document (inclusion world document) front).run middle with
        ⟨result, after⟩
      cases result with
      | error e => rfl
      | ok texts =>
        simp only [Eval.run_pure]
        rcases (renderNodes world document (inclusion world document) back).run after with
          ⟨result, last⟩
        cases result with
        | error e => rfl
        | ok more => simp only [String.append_assoc]

theorem run_renderAll_one (node : Node) (session : Session) :
    (renderAll world document [node]).run session = (render world document node).run session := by
  unfold renderAll render eval
  rw [renderNodes, Eval.run_bind]
  rcases (toText (evalNode world document (inclusion world document) node)).run session with
    ⟨result, after⟩
  cases result with
  | error e => rfl
  | ok text => simp only [renderNodes, Eval.run_bind, Eval.run_pure, String.append_empty]

end Evaluation

def Job.rendered (job : Job) (k : Nat) (trees : List Node) : Except EvalError String × Session :=
  (Evaluation.renderAll job.world (job.document k) trees).run (job.session k)

namespace Job

variable {job : Job}

/-- The exports that the tasks of a file can find. -/
def Fit (job : Job) (store : ExportStore) : Prop := job.linked.AgreesOff job.input store

def trees (job : Job) : List Node := (Template.Reading.ofSource job.source).trees

/-- The pages of a file have nothing to do with what the file itself exports. -/
def Confined (job : Job) : Prop :=
  ∀ k, ∀ node ∈ job.trees,
    Eval.Confined job.input (Evaluation.render job.world (job.document k) node)

/-- A file that is listed nowhere cannot see its own exports. -/
theorem confined_of_omits (homits : job.world.Omits job.input)
    (hbuiltins : job.world.builtins.Confined) : job.Confined := by
  intro k node _
  exact @Evaluation.render_confined job.world (job.document k) homits hbuiltins node

/-- By induction on the moves of the lexer. -/
theorem lexed_of_ran {h : History job.network} {s : Lexing}
    (ran : @Ran _ _ _ _ job.network job.Fit .lexer h s) : Lexed job.source (h.said .tokens) s := by
  refine ran.invariant (P := fun h s => Lexed job.source (h.said .tokens) s)
    (Lexed.first job.source) ?_
  intro h s store hinv _
  rcases @Lexed.next job.pages job.source _ s hinv with
    ⟨token, next, hmove, hnext⟩ | ⟨next, hmove, hnext⟩ | ⟨e, hmove, -⟩ | ⟨hmove, -⟩
  · simp only [network, hmove, Keeps, Function.update_self]
    exact hnext
  · simp only [network, hmove]
    exact hnext
  · simp only [network, hmove]
    trivial
  · simp only [network, hmove]
    trivial

def fed (job : Job) (said : (w : Channel job.pages) → List (Item w)) : List Node :=
  if h : job.pages = 1 then said (.branch ⟨0, by omega⟩) else said .nodes

theorem fed_of_one (hone : job.pages = 1) :
    job.fed = fun said => said (.branch ⟨0, by omega⟩) := by
  funext said
  exact dif_pos hone

theorem fed_of_many (hmany : job.pages ≠ 1) : job.fed = fun said => said .nodes := by
  funext said
  exact dif_neg hmany

/-- By induction on the moves of the parser. It has one outlet for many pages and another one for a
single page. -/
theorem parsed_of_ran {h : History job.network} {s : Parsing}
    (ran : @Ran _ _ _ _ job.network job.Fit .parser h s) :
    Parsed (h.heard .tokens) (h.spent .tokens) (job.fed h.said) s := by
  have hnothing : job.fed (fun _ => []) = [] := by
    by_cases hone : job.pages = 1
    · rw [fed_of_one hone]; rfl
    · rw [fed_of_many hone]; rfl
  refine ran.invariant
    (P := fun h s => Parsed (h.heard .tokens) (h.spent .tokens) (job.fed h.said) s)
    (.reading (congrArg (·, _) hnothing.symm)) ?_
  intro h s store hinv _
  cases s with
  | refused e => trivial
  | finished => trivial
  | reading parser =>
    simp only [network, Stages.parse, Keeps, Function.update_self]
    exact ⟨fun token => hinv.take token, hinv.atEnd⟩
  | holding root parser =>
    have pushed :
        Parser.idle.pushAll (h.heard .tokens) = (job.fed h.said ++ [root], .ok parser) := by
      cases hinv with
      | holding pushed => exact pushed
    -- the parser feeds the only evaluator itself, or the fan for several
    by_cases hone : job.pages = 1
    · simp only [network, Stages.parse, dif_pos hone, Keeps]
      apply Parsed.reading
      rw [fed_of_one hone] at pushed ⊢
      simp only [Function.update_self]
      exact pushed
    · simp only [network, Stages.parse, dif_neg hone, Keeps]
      apply Parsed.reading
      rw [fed_of_many hone] at pushed ⊢
      simp only [Function.update_self]
      exact pushed

/-- Each page has been given the trees taken, except that some still wait for the last one. -/
inductive Fanned {n : Nat} (heard : List Node) (spent : Bool) (said : Fin n → List Node) :
    Fanning n → Prop
  | reading {many : n ≠ 1} (same : ∀ k, said k = heard) : Fanned heard spent said (.reading many)
  | passing {many : n ≠ 1} {front : List Node} {node : Node} {rest : List (Fin n)}
    (last : heard = front ++ [node]) (distinct : rest.Nodup)
    (waiting : ∀ k, k ∈ rest → said k = front) (served : ∀ k, k ∉ rest → said k = heard) :
    Fanned heard spent said (.passing many node rest)
  | finished (ended : spent = true) (same : ∀ k, said k = heard) : Fanned heard spent said .finished

theorem Fanned.give {n : Nat} {heard : List Node} {spent : Bool} {said after : Fin n → List Node}
    {many : n ≠ 1} {node : Node} {k : Fin n} {rest : List (Fin n)}
    (h : Fanned heard spent said (.passing many node (k :: rest)))
    (hself : after k = said k ++ [node]) (hothers : ∀ j, j ≠ k → after j = said j) :
    Fanned heard spent after (.passing many node rest) := by
  cases h with
  | @passing _ front _ _ last distinct waiting served =>
    obtain ⟨hk, hrest⟩ := List.nodup_cons.1 distinct
    refine .passing last hrest (fun j hj => ?_) (fun j hj => ?_)
    · have hne : j ≠ k := fun heq => hk (heq ▸ hj)
      rw [hothers j hne]
      exact waiting j (List.mem_cons_of_mem k hj)
    · by_cases heq : j = k
      · rw [heq, hself, waiting k List.mem_cons_self, last]
      · rw [hothers j heq]
        apply served
        intro hmem
        rcases List.mem_cons.1 hmem with hhead | htail
        · exact heq hhead
        · exact hj htail

theorem fanned_of_ran (hmany : job.pages ≠ 1) {h : History job.network} {s : Fanning job.pages}
    (ran : @Ran _ _ _ _ job.network job.Fit .fan h s) :
    Fanned (h.heard .nodes) (h.spent .nodes) (fun k => h.said (.branch k)) s := by
  refine ran.invariant (P := fun h s =>
    Fanned (h.heard .nodes) (h.spent .nodes) (fun k => h.said (.branch k)) s) ?_ ?_
  · have hstart : job.network.start .fan = (Fanning.reading hmany : Fanning job.pages) :=
      dif_neg hmany
    rw [hstart]
    exact .reading fun k => rfl
  intro h s store hinv _
  cases s with
  | finished => trivial
  | reading many =>
    simp only [network, fanOut, Keeps, Function.update_self]
    cases hinv with
    | reading same =>
      -- a new tree waits for all pages
      refine ⟨fun node => ?_, .finished rfl same⟩
      exact .passing rfl (List.nodup_finRange _) (fun k _ => same k)
        (fun k hk => absurd (List.mem_finRange k) hk)
  | passing many node rest =>
    cases rest with
    | nil =>
      cases hinv with
      | passing last distinct waiting served =>
        exact Fanned.reading fun k => served k List.not_mem_nil
    | cons k rest =>
      simp only [network, fanOut, Keeps]
      refine hinv.give ?_ ?_
      · simp only [Function.update_self]
        rfl
      · intro j hj
        have hne : (Channel.branch j : Channel job.pages) ≠ .branch k := by
          intro heq
          injection heq with heq
          exact hj heq
        exact Function.update_of_ne hne _ _

/-- A page has come to a text, and to a session in which its own file may have exported anything. -/
structure Rendered (job : Job) (k : Nat) (trees : List Node) (text : String) (session : Session) :
    Prop where
  alike : ∃ after, job.rendered k trees = (.ok text, after) ∧ Session.Alike job.input after session
  fit : job.Fit session.exports
  calm : session.patience = none

/-- A page without trees has no text and a fresh session. -/
theorem Rendered.first (job : Job) (k : Nat) : job.Rendered k [] "" (job.session k) := by
  refine ⟨⟨job.session k, rfl, rfl, rfl, rfl, rfl, fun _ _ => rfl⟩, fun _ _ => rfl, rfl⟩

/-- Whatever the other pages have done to the exports, the next tree has the text that it has on the
page alone. -/
theorem Rendered.next {k : Nat} {trees : List Node} {text : String} {session after : Session}
    {node : Node} {store : ExportStore} {result : Except EvalError String}
    (h : job.Rendered k trees text session)
    (hconfined : Eval.Confined job.input (Evaluation.render job.world (job.document k) node))
    (hfit : job.Fit store)
    (hrun : (Evaluation.render job.world (job.document k) node).run
      { session with exports := store } = (result, after)) :
    (job.rendered k (trees ++ [node])).1 = result.map (text ++ ·) ∧
      (∀ more, result = .ok more → job.Rendered k (trees ++ [node]) (text ++ more) after) := by
  obtain ⟨⟨before, hrendered, halike⟩, hsession, hcalm⟩ := h
  -- the page alone and the page among the others go into the tree with sessions that are alike
  have hsame : Session.Alike job.input before { session with exports := store } := by
    refine ⟨halike.context, halike.exporting, halike.depth, halike.patience, ?_⟩
    intro other hother
    calc before.exports.get other = session.exports.get other := halike.exports other hother
      _ = job.linked.get other := (hsession other hother).symm
      _ = store.get other := hfit other hother
  obtain ⟨hresult, hafter⟩ := hconfined.same _ _ hsame
  obtain ⟨hkeeps, hpatience⟩ := hconfined.keeps { session with exports := store }
  rw [hrun] at hresult hafter hkeeps hpatience
  rcases hlater : (Evaluation.render job.world (job.document k) node).run before with
    ⟨result', later⟩
  rw [hlater] at hresult hafter
  obtain rfl : result' = result := hresult
  have hall : job.rendered k (trees ++ [node]) = (result'.map (text ++ ·), later) := by
    unfold rendered at hrendered ⊢
    rw [Evaluation.run_renderAll_append, hrendered]
    simp only [Evaluation.run_renderAll_one, hlater]
    cases result' <;> rfl
  refine ⟨congrArg Prod.fst hall, fun more hmore => ?_⟩
  subst hmore
  refine ⟨⟨later, hall, hafter⟩, fun other hother => ?_, hpatience hcalm⟩
  exact (hfit other hother).trans (hkeeps other hother)

/-- What an evaluator has handed on are the texts of the trees taken, except for the one in hand. -/
inductive Evaluated (job : Job) (k : Nat) (heard : List Node) (spent : Bool) (said : List String) :
    Evaluating → Prop
  | reading {session : Session} (rendered : job.Rendered k heard (String.join said) session) :
    Evaluated job k heard spent said (.reading session)
  | rendering {front : List Node} {node : Node} {session : Session} (last : heard = front ++ [node])
    (rendered : job.Rendered k front (String.join said) session) :
    Evaluated job k heard spent said (.rendering session node)
  | holding {session : Session} {text : String}
    (rendered : job.Rendered k heard (String.join said ++ text) session) :
    Evaluated job k heard spent said (.holding session text)
  | finished {session : Session} (ended : spent = true)
    (rendered : job.Rendered k heard (String.join said) session) :
    Evaluated job k heard spent said .finished

theorem join_concat (texts : List String) (text : String) :
    String.join (texts ++ [text]) = String.join texts ++ text := by
  unfold String.join
  exact List.foldl_append

theorem Evaluated.give {k : Nat} {heard : List Node} {spent : Bool} {said : List String}
    {session : Session} {text : String}
    (h : job.Evaluated k heard spent said (.holding session text)) :
    job.Evaluated k heard spent (said ++ [text]) (.reading session) := by
  cases h with
  | holding rendered =>
    apply Evaluated.reading
    rw [join_concat]
    exact rendered

/-- By induction on the moves of an evaluator, whatever the exports have become before each of
them. -/
theorem evaluated_of_ran {k : Fin job.pages} (hconfined : job.Confined)
    {h : History job.network} {s : Evaluating}
    (ran : @Ran _ _ _ _ job.network job.Fit (.evaluator k) h s)
    (hheard : h.heard (.branch k) ⊆ job.trees) :
    job.Evaluated k (h.heard (.branch k)) (h.spent (.branch k)) (h.said (.texts k)) s := by
  refine ran.invariant (P := fun h s => h.heard (.branch k) ⊆ job.trees →
    job.Evaluated k (h.heard (.branch k)) (h.spent (.branch k)) (h.said (.texts k)) s)
    (fun _ => .reading (Rendered.first job k)) ?_ hheard
  intro h s store hinv hfit
  cases s with
  | finished => trivial
  | reading session =>
    simp only [network, evaluate, Keeps, Function.update_self]
    refine ⟨fun node hall => ?_, fun hall => ?_⟩
    · cases hinv fun other hother => hall (List.mem_append_left _ hother) with
      | reading rendered => exact .rendering rfl rendered
    · cases hinv hall with
      | reading rendered => exact .finished rfl rendered
  | holding session text =>
    simp only [network, evaluate, Keeps, Function.update_self]
    exact fun hall => (hinv hall).give
  | rendering session node =>
    rcases hrun : (Evaluation.render job.world (job.document k) node).run
      { session with exports := store } with ⟨result, after⟩
    simp only [network, evaluate, hrun]
    -- a page that fails moves no further, so there is nothing to show for it
    cases result with
    | ok text =>
      intro hall
      cases hinv hall with
      | @rendering front _ _ last rendered =>
        have hnode : node ∈ job.trees := hall (last ▸ List.mem_concat_self)
        obtain ⟨-, hnext⟩ := rendered.next (hconfined k node hnode) hfit hrun
        apply Evaluated.holding
        rw [last]
        exact hnext text rfl
    | error e =>
      split
      · next heq => cases heq
      · trivial
      · trivial

inductive Assembled (job : Job) (k : Nat) (heard : List String) (spent : Bool)
    (said : List (Nat × Page)) : Assembling → Prop
  | collecting (nothing : said = []) :
    Assembled job k heard spent said (.collecting (String.join heard))
  | holding (ended : spent = true) (nothing : said = []) :
    Assembled job k heard spent said (.holding (k, job.page k (String.join heard)))
  | finished (ended : spent = true) (all : said = [(k, job.page k (String.join heard))]) :
    Assembled job k heard spent said .finished

theorem Assembled.take {k : Nat} {heard : List String} {spent : Bool} {said : List (Nat × Page)}
    {text : String} (h : job.Assembled k heard spent said (.collecting text)) (more : String) :
    job.Assembled k (heard ++ [more]) spent said (.collecting (text ++ more)) := by
  cases h with
  | collecting nothing =>
    rw [← join_concat]
    exact .collecting nothing

theorem Assembled.give {k : Nat} {heard : List String} {spent : Bool} {said : List (Nat × Page)}
    {item : Nat × Page} (h : job.Assembled k heard spent said (.holding item)) :
    job.Assembled k heard spent (said ++ [item]) .finished := by
  cases h with
  | holding ended nothing =>
    apply Assembled.finished ended
    rw [nothing, List.nil_append]

/-- By induction on the moves of an assembler. -/
theorem assembled_of_ran {k : Fin job.pages} {h : History job.network} {s : Assembling}
    (ran : @Ran _ _ _ _ job.network job.Fit (.assembler k) h s) :
    job.Assembled k (h.heard (.texts k)) (h.spent (.texts k)) (h.said .pages) s := by
  refine ran.invariant (P := fun h s =>
    job.Assembled k (h.heard (.texts k)) (h.spent (.texts k)) (h.said .pages) s)
    (.collecting rfl) ?_
  intro h s store hinv _
  cases s with
  | finished => trivial
  | collecting text =>
    simp only [network, assemble, Keeps, Function.update_self]
    refine ⟨fun more => hinv.take more, ?_⟩
    cases hinv with
    | collecting nothing => exact .holding rfl nothing
  | holding item =>
    simp only [network, assemble, Keeps, Function.update_self]
    exact hinv.give

end Job
end PageTemplate
