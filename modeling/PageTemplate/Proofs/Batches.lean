import Mathlib
import PageTemplate.Proofs.Bindings
import PageTemplate.Proofs.Confinement

namespace PageTemplate

namespace ExportStore

/-- The same exports for every file, in whichever order the files were first met. -/
structure Same (a b : ExportStore) : Prop where
  entries : ∀ file : Path, a.exported? file = b.exported? file
  files : a.files.Perm b.files

theorem exported?_insert (store : ExportStore) (file other : Path) (name : List String)
    (value : Value) : (store.insert file name value).exported? other =
      if other.components = file.components then
        some (((store.exported? other).getD .empty).insert name value)
      else store.exported? other := by
  rw [exported?, insert, Keyed.lookup_update]
  split
  · next h => rw [exported?, h]
  · rfl

/-- What becomes of the exports of one file has to do with no other. -/
theorem exported?_bindAll_congr {a b : ExportStore} {other : Path}
    (h : a.exported? other = b.exported? other) (file : Path) (bindings : List Binding) :
    (a.bindAll file bindings).exported? other = (b.bindAll file bindings).exported? other := by
  induction bindings generalizing a b with
  | nil => exact h
  | cons binding rest ih =>
    refine @ih (a.insert file binding.1 binding.2) (b.insert file binding.1 binding.2) ?_
    rw [exported?_insert, exported?_insert, h]

/-- Bindings under different files can be made in either order. -/
theorem bindAll_comm {file other : Path} (h : file.components ≠ other.components)
    (store : ExportStore) (first second : List Binding) :
    ((store.bindAll file first).bindAll other second).Same
      ((store.bindAll other second).bindAll file first) := by
  refine ⟨fun third => ?_, ?_⟩
  -- no file has to do with both, so one of the two can be left out of account for each
  · by_cases hfile : third.components = file.components
    · have hother : third.components ≠ other.components := fun heq => h (hfile.symm.trans heq)
      rw [exported?_bindAll_of_ne hother]
      exact exported?_bindAll_congr (exported?_bindAll_of_ne hother store second).symm file first
    · rw [exported?_bindAll_of_ne hfile]
      exact exported?_bindAll_congr (exported?_bindAll_of_ne hfile store first) other second
  · by_cases hfirst : first = []
    · rw [hfirst]
      exact .refl _
    · by_cases hsecond : second = []
      · rw [hsecond]
        exact .refl _
      · rw [files_bindAll hsecond, files_bindAll hfirst, files_bindAll hfirst,
          files_bindAll hsecond]
        exact Keyed.update_comm h.symm _ _ store.files

end ExportStore

def World.ShowsAlike (world : World) (a b : ExportStore) : Prop :=
  ∀ path files, world.listing path = .ok files → ∀ other ∈ files, a.get other = b.get other

/-- What a file exports that is listed nowhere is not to be seen. -/
theorem World.Omits.showsAlike {world : World} {file : Path} (h : world.Omits file)
    (exports : ExportStore) (bindings : List Binding) :
    world.ShowsAlike exports (exports.bindAll file bindings) := by
  intro path files hfiles other hother
  rw [ExportStore.get_eq, ExportStore.get_eq,
    ExportStore.exported?_bindAll_of_ne (h path files hfiles other hother)]

/-- To a document that nobody lists, stores are alike that show alike. -/
theorem World.Omits.hides {world : World} {file : Path} (h : world.Omits file) :
    world.Hides file world.ShowsAlike where
  listed hab path files hfiles other hother := hab path files hfiles other hother
  insert {a b} hab name value path files hfiles other hother := by
    have hne := h path files hfiles other hother
    have ha := a.agreesOff_insert file name value other hne
    have hb := b.agreesOff_insert file name value other hne
    exact ha.symm.trans ((hab path files hfiles other hother).trans hb)

namespace Evaluation

def renderEach (world : World) (document : Document) (nodes : List Node) : Eval (List String) :=
  nodes.mapM (render world document)

def renderOver (world : World) (document : Document) (nodes : List Node) (session : Session)
    (exports : ExportStore) : Except EvalError (List String) × Session :=
  (renderEach world document nodes).run { session with exports := exports }

def exportedBy (world : World) (document : Document) (nodes : List Node) (session : Session)
    (exports : ExportStore) : List Binding :=
  if session.exporting then assignments world document nodes { session with exports := exports }
  else []

variable {world : World} {document : Document} {alike : ExportStore → ExportStore → Prop}

/-- The text of a document is made of the texts of its nodes. -/
theorem renderAll_eq (nodes : List Node) :
    renderAll world document nodes = String.join <$> renderEach world document nodes := by
  unfold renderAll renderEach
  induction nodes with
  | nil =>
    rw [renderNodes]
    rfl
  | cons node rest ih =>
    rw [renderNodes, ih, List.mapM_cons, map_bind]
    refine bind_congr fun text => ?_
    simp only [map_eq_pure_bind, bind_assoc, pure_bind, String.join_cons]

/-- A document fails as its nodes do, and otherwise joins their texts. -/
theorem run_renderAll (nodes : List Node) (session : Session) :
    (renderAll world document nodes).run session =
      (((renderEach world document nodes).run session).1.map String.join,
        ((renderEach world document nodes).run session).2) := by
  rw [renderAll_eq, map_eq_pure_bind, Eval.run_bind]
  rcases (renderEach world document nodes).run session with ⟨_ | texts, after⟩ <;> rfl

/-- Rendering node by node makes the bindings that rendering the whole makes. -/
theorem renderEach_recorded (hhides : world.Hides document.path alike)
    (hprelude : world.builtins = .prelude) (nodes : List Node) :
    Eval.Recorded alike document.path (assignments world document nodes)
      (renderEach world document nodes) := by
  unfold renderEach assignments
  induction nodes with
  | nil =>
    rw [boundByEach]
    exact .pure []
  | cons node rest ih =>
    rw [List.mapM_cons, render, toText, bind_assoc, boundByEach]
    refine (eval_recorded hhides hprelude node).bind hhides fun value => ?_
    have hrest (text : String) : Eval.Recorded alike document.path
        (boundByEach world document (inclusion world document) rest)
        (do return text :: (← rest.mapM (render world document))) :=
      ih.finish hhides fun _ => .pure _
    cases value with
    | none => exact hrest ""
    | some value => exact hrest value.text

/-- All that a document does to the exports is to add its own. -/
theorem renderOver_exports (hprelude : world.builtins = .prelude) (document : Document)
    (nodes : List Node) (session : Session) (exports : ExportStore) :
    (renderOver world document nodes session exports).2.exports =
      exports.bindAll document.path (exportedBy world document nodes session exports) := by
  have hrecorded := renderEach_recorded (world.hides_eq document.path) hprelude nodes
  rw [renderOver, hrecorded.exports_eq, Session.bindAll, exportedBy]
  dsimp only
  split <;> rfl

/-- A document that is listed nowhere ends alike over exports that show alike. -/
theorem renderOver_alike (hprelude : world.builtins = .prelude)
    (homits : world.Omits document.path) {a b : ExportStore} (hab : world.ShowsAlike a b)
    (nodes : List Node) (session : Session) :
    let outcome := renderOver world document nodes session
    (outcome a).1 = (outcome b).1 ∧
      exportedBy world document nodes session a = exportedBy world document nodes session b ∧
      (outcome b).2 = { (outcome a).2 with exports := (outcome b).2.exports } := by
  intro outcome
  have hrecorded := @renderEach_recorded world document _ homits.hides hprelude nodes
  obtain ⟨hrecord, hresult, -⟩ := hrecorded.same { session with exports := a } b hab
  refine ⟨hresult.symm, ?_, ?_⟩
  · rw [exportedBy, exportedBy, hrecord]
  · obtain ⟨exports, -, hafter⟩ :=
      hrecorded.same_after homits.hides { session with exports := a } hab
    rw [show (outcome b).2 = { (outcome a).2 with exports := exports } from hafter]

end Evaluation

namespace Draft

variable {world : World} {other : Path}

/-- A tree on each page of a file: the exports of other files stay, and the pages are what they
were. -/
theorem addToEach_keeps (hprelude : world.builtins = .prelude) (node : Node) {drafts : List Draft}
    (h : ∀ draft ∈ drafts, other.components ≠ draft.document.path.components)
    (exports : ExportStore) :
    (addToEach world node drafts exports).2.exported? other = exports.exported? other ∧
      ∀ filled, (addToEach world node drafts exports).1 = .ok filled →
        filled.map Draft.document = drafts.map Draft.document := by
  induction drafts generalizing exports with
  | nil => exact ⟨rfl, fun filled hfilled => by cases hfilled; rfl⟩
  | cons draft rest ih =>
    have hdraft := ((Evaluation.eval_recorded (world.hides_eq draft.document.path) hprelude
      node).toText (world.hides_eq _)).exported?_of_ne (h draft List.mem_cons_self)
        { draft.session with exports := exports }
    have hlater := ih fun page hpage => h page (List.mem_cons_of_mem draft hpage)
    rw [addToEach, add, Evaluation.render]
    rcases hrun : (Evaluation.toText (Evaluation.eval world draft.document node)).run
      { draft.session with exports := exports } with ⟨_ | text, after⟩
    -- a page that fails has exported as well, and the pages after it get no turn
    · rw [hrun] at hdraft
      exact ⟨hdraft, nofun⟩
    · rw [hrun] at hdraft
      obtain ⟨hentry, hdocuments⟩ := hlater after.exports
      dsimp only [Except.map]
      rcases hrest : addToEach world node rest after.exports with ⟨_ | pages, last⟩
      · rw [hrest] at hentry
        exact ⟨hentry.trans hdraft, nofun⟩
      · rw [hrest] at hentry hdocuments
        refine ⟨hentry.trans hdraft, fun filled hall => ?_⟩
        cases hall
        exact congrArg (draft.document :: ·) (hdocuments pages rfl)

/-- All trees of a file. -/
theorem addAll_keeps (hprelude : world.builtins = .prelude) (nodes : List Node)
    {drafts : List Draft}
    (h : ∀ document ∈ drafts.map Draft.document, other.components ≠ document.path.components)
    (exports : ExportStore) :
    (addAll world nodes drafts exports).2.exported? other = exports.exported? other := by
  induction nodes generalizing drafts exports with
  | nil => rfl
  | cons node nodes ih =>
    obtain ⟨hentry, hdocuments⟩ := addToEach_keeps hprelude node
      (fun draft hdraft => h draft.document (List.mem_map_of_mem hdraft)) exports
    rw [addAll]
    rcases hrun : addToEach world node drafts exports with ⟨_ | filled, after⟩
    · rw [hrun] at hentry
      exact hentry
    · rw [hrun] at hentry hdocuments
      exact (ih (hdocuments filled rfl ▸ h) after).trans hentry

end Draft

namespace Rendering

variable {setting : Setting} {stores : Stores}

/-- Whether a file ends well or not, what it leaves behind are the exports of its trees. -/
theorem renderFile_snd (input : Path) (source : String) :
    (renderFile setting stores input source).2 =
      { stores with
        exports := (Draft.addAll (world setting stores) (Template.Reading.ofSource source).trees
          (drafts setting input (pageCount setting source))
          (stores.exports.insert input ["_href"] (.str (setting.map.href input 1)))).2 } := by
  unfold renderFile
  dsimp only
  split <;> rfl

/-- A file leaves the templates and the exports of other files as they are. -/
theorem renderFile_keeps (hprelude : setting.builtins = .prelude) (input : Path)
    (source : String) :
    let after := (renderFile setting stores input source).2
    after.templates = stores.templates ∧
      ∀ other : Path, other.components ≠ input.components →
        after.exports.exported? other = stores.exports.exported? other := by
  intro after
  have hafter : after = _ := renderFile_snd input source
  rw [hafter]
  refine ⟨rfl, fun other hother => ?_⟩
  have hdocuments : ∀ document ∈
      (drafts setting input (pageCount setting source)).map Draft.document,
      other.components ≠ document.path.components := by
    rw [drafts, List.map_map]
    exact List.forall_mem_map.2 fun page _ => hother
  rw [Draft.addAll_keeps hprelude _ hdocuments, ExportStore.exported?_insert, if_neg hother]

end Rendering

open Evaluation in
/-- Documents with different paths that are listed nowhere can be rendered in either order: each has
the same outcome and leaves its session alike, and the exports in the end are the same. No document
changes the exports of another path, and no file the templates. -/
theorem documents_do_not_interfere {world : World} (hprelude : world.builtins = .prelude) :
    (∀ first second : Document, first.path.components ≠ second.path.components →
      world.Omits first.path → world.Omits second.path →
      ∀ nodes nodes' session session' exports,
        let firstEarly := renderOver world first nodes session exports
        let secondLate := renderOver world second nodes' session' firstEarly.2.exports
        let secondEarly := renderOver world second nodes' session' exports
        let firstLate := renderOver world first nodes session secondEarly.2.exports
        firstLate.1 = firstEarly.1 ∧ secondLate.1 = secondEarly.1 ∧
        firstLate.2 = { firstEarly.2 with exports := firstLate.2.exports } ∧
        secondLate.2 = { secondEarly.2 with exports := secondLate.2.exports } ∧
        secondLate.2.exports.Same firstLate.2.exports) ∧
    (∀ document nodes session exports other, other.components ≠ document.path.components →
      (renderOver world document nodes session exports).2.exports.exported? other =
        exports.exported? other) ∧
    ∀ setting stores input source, Rendering.world setting stores = world →
      let after := (Rendering.renderFile setting stores input source).2
      after.templates = stores.templates ∧
        ∀ other, other.components ≠ input.components →
          after.exports.exported? other = stores.exports.exported? other := by
  refine ⟨?_, ?_, ?_⟩
  · intro first second hpaths hfirst hsecond nodes nodes' session session' exports
      firstEarly secondLate secondEarly firstLate
    -- what the other document exports is not to be seen for this one
    have hshows : world.ShowsAlike exports secondEarly.2.exports := by
      rw [renderOver_exports hprelude]
      exact hsecond.showsAlike exports _
    have hshows' : world.ShowsAlike exports firstEarly.2.exports := by
      rw [renderOver_exports hprelude]
      exact hfirst.showsAlike exports _
    obtain ⟨hresult, hexported, hsession⟩ :=
      renderOver_alike hprelude hfirst hshows nodes session
    obtain ⟨hresult', hexported', hsession'⟩ :=
      renderOver_alike hprelude hsecond hshows' nodes' session'
    refine ⟨hresult.symm, hresult'.symm, hsession, hsession', ?_⟩
    have hlate : secondLate.2.exports =
        (exports.bindAll first.path (exportedBy world first nodes session exports)).bindAll
          second.path (exportedBy world second nodes' session' exports) := by
      rw [renderOver_exports hprelude, ← hexported', renderOver_exports hprelude]
    have hlate' : firstLate.2.exports =
        (exports.bindAll second.path (exportedBy world second nodes' session' exports)).bindAll
          first.path (exportedBy world first nodes session exports) := by
      rw [renderOver_exports hprelude, ← hexported, renderOver_exports hprelude]
    rw [hlate, hlate']
    exact ExportStore.bindAll_comm hpaths exports _ _
  · intro document nodes session exports other hother
    have hrecorded := renderEach_recorded (world.hides_eq document.path) hprelude nodes
    exact hrecorded.exported?_of_ne hother _
  · intro setting stores input source hworld after
    subst hworld
    exact Rendering.renderFile_keeps hprelude input source

/-- The trees of `{{ for p in "posts" }}{{: p.n }}{{ end }}{{ x = 1 }}`. -/
def listingNodes : List Node :=
  [⟨.forLoop, [.leaf (.identifier "p") ⟨1, 8⟩, .leaf (.stringLiteral "posts") ⟨1, 13⟩,
    ⟨.content, [⟨.printBlock, [.leaf (.varName ["p", "n"]) ⟨1, 27⟩], ⟨1, 23⟩⟩], ⟨1, 23⟩⟩], ⟨1, 1⟩⟩,
  ⟨.block, [⟨.statementList, [⟨.expression .assignment,
      [.leaf (.varName ["x"]) ⟨1, 45⟩, .leaf (.numberLiteral 1) ⟨1, 49⟩], ⟨1, 45⟩⟩], ⟨1, 45⟩⟩],
    ⟨1, 42⟩⟩]

/-- The trees of `{{ y = 2 }}{{: z }}`. -/
def unboundNodes : List Node :=
  [⟨.block, [⟨.statementList, [⟨.expression .assignment,
      [.leaf (.varName ["y"]) ⟨1, 4⟩, .leaf (.numberLiteral 2) ⟨1, 8⟩], ⟨1, 4⟩⟩], ⟨1, 4⟩⟩], ⟨1, 1⟩⟩,
  ⟨.printBlock, [.leaf (.varName ["z"]) ⟨1, 16⟩], ⟨1, 12⟩⟩]

def onlyPosts (files : List Path) (path : String) : Except String (List Path) :=
  if path = "posts" then .ok files else .error "no such content"

theorem onlyPosts_omits {world : World} {posts : List Path}
    (hposts : world.listing = onlyPosts posts) {file : Path}
    (h : ∀ post ∈ posts, post.components ≠ file.components) : world.Omits file := by
  intro path files hfiles other hother
  rw [hposts, onlyPosts] at hfiles
  split at hfiles
  · cases hfiles
    exact h other hother
  · cases hfiles

open Evaluation in
/-- One document shows what the post exports, the other one fails after an assignment. -/
theorem documents_do_not_interfere_on_failure :
    let world : World := { listing := onlyPosts [.ofText "c"] }
    let first : Document := { path := .ofText "a" }
    let second : Document := { path := .ofText "b" }
    let exports := ExportStore.empty.insert (.ofText "c") ["n"] (.int 5)
    let firstEarly := renderOver world first listingNodes {} exports
    let secondLate := renderOver world second unboundNodes {} firstEarly.2.exports
    let secondEarly := renderOver world second unboundNodes {} exports
    let firstLate := renderOver world first listingNodes {} secondEarly.2.exports
    world.Omits first.path ∧ world.Omits second.path ∧
      firstEarly.1 = .ok ["5", ""] ∧ firstLate.1 = .ok ["5", ""] ∧
      secondEarly.1 = .error (.undefinedVariable "z" ⟨1, 16⟩) ∧
      secondLate.1 = .error (.undefinedVariable "z" ⟨1, 16⟩) ∧
      secondLate.2.exports.Same firstLate.2.exports ∧
      secondLate.2.exports.exported? first.path = firstEarly.2.exports.exported? first.path ∧
      ∀ source, (Rendering.renderFile { listing := onlyPosts [.ofText "c"] } { exports := exports }
        first.path source).2.exports.exported? second.path = exports.exported? second.path := by
  intro world first second exports
  have ha : first.path.components = [.normal (Text.bytes "a")] := by
    cbv
  have hb : second.path.components = [.normal (Text.bytes "b")] := by
    cbv
  have hc : (Path.ofText "c").components = [.normal (Text.bytes "c")] := by
    cbv
  have hpaths : first.path.components ≠ second.path.components := by
    rw [ha, hb]
    decide
  have hfirst : world.Omits first.path := by
    refine onlyPosts_omits rfl (List.forall_mem_singleton.2 ?_)
    rw [ha, hc]
    decide
  have hsecond : world.Omits second.path := by
    refine onlyPosts_omits rfl (List.forall_mem_singleton.2 ?_)
    rw [hb, hc]
    decide
  have hearly : (renderOver world first listingNodes {} exports).1 = .ok ["5", ""] := by
    cbv
  have hearly' : (renderOver world second unboundNodes {} exports).1 =
      .error (.undefinedVariable "z" ⟨1, 16⟩) := by
    cbv
  obtain ⟨horders, hkeeps, hfiles⟩ :=
    documents_do_not_interfere (rfl : world.builtins = .prelude)
  obtain ⟨hlate, hlate', -, -, hsame⟩ :=
    horders first second hpaths hfirst hsecond listingNodes unboundNodes {} {} exports
  have hfile (source : String) :=
    (hfiles { listing := onlyPosts [.ofText "c"] } { exports := exports } first.path source rfl).2
      second.path hpaths.symm
  exact ⟨hfirst, hsecond, hearly, hlate.trans hearly, hearly', hlate'.trans hearly', hsame,
    hkeeps second unboundNodes {} _ first.path hpaths, hfile⟩

end PageTemplate
