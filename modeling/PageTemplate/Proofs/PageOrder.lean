import Mathlib
import PageTemplate.Proofs.Batches
import PageTemplate.Proofs.DottedNames

/-!
Pages of one file, one after the other. All of them export under the path of the file. As long as
nobody lists the file, a page has the same text and the same assignments whenever its turn comes;
what is exported in the end is what the last page has assigned.
-/

namespace PageTemplate

theorem World.ShowsAlike.trans {world : World} {a b c : ExportStore} (hab : world.ShowsAlike a b)
    (hbc : world.ShowsAlike b c) : world.ShowsAlike a c := fun path files hfiles other hother =>
  (hab path files hfiles other hother).trans (hbc path files hfiles other hother)

namespace Draft

def renderOver (world : World) (nodes : List Node) (page : Draft) (exports : ExportStore) :
    Except EvalError (List String) × Session :=
  Evaluation.renderOver world page.document nodes page.session exports

/-- What a page binds in its own scope when it is rendered over exports. -/
def assigned (world : World) (nodes : List Node) (exports : ExportStore) (page : Draft) :
    List Binding :=
  Evaluation.assignments world page.document nodes { page.session with exports := exports }

def inTurn (world : World) (nodes : List Node) :
    List Draft → ExportStore → List (Except EvalError (List String)) × ExportStore
  | [], exports => ([], exports)
  | page :: pages, exports =>
    let (outcome, after) := page.renderOver world nodes exports
    let (outcomes, last) := inTurn world nodes pages after.exports
    (outcome :: outcomes, last)

variable {world : World} {input : Path}

/-- Pages do not see what other pages of their file export: each does what it does over the exports
before the first of them. -/
theorem inTurn_eq (hprelude : world.builtins = .prelude) (homits : world.Omits input)
    (nodes : List Node) {order : List Draft}
    (hpages : ∀ page ∈ order, page.document.path = input ∧ page.session.exporting = true)
    {exports current : ExportStore} (hshows : world.ShowsAlike exports current) :
    inTurn world nodes order current =
      (order.map fun page => (page.renderOver world nodes exports).1,
        current.bindAll input (order.flatMap (assigned world nodes exports))) := by
  -- by induction on the turns: exports under `input` change nothing for the pages to come
  induction order generalizing current with
  | nil => rfl
  | cons page rest ih =>
    obtain ⟨hpath, hexporting⟩ := hpages page List.mem_cons_self
    obtain ⟨houtcome, hexported, -⟩ := Evaluation.renderOver_alike hprelude (hpath ▸ homits)
      hshows nodes page.session
    have hassigned : Evaluation.exportedBy world page.document nodes page.session current =
        assigned world nodes exports page := by
      rw [← hexported, Evaluation.exportedBy, if_pos hexporting, assigned]
    have hafter : (page.renderOver world nodes current).2.exports =
        current.bindAll input (assigned world nodes exports page) := by
      rw [renderOver, Evaluation.renderOver_exports hprelude, hassigned, hpath]
    have hrest := ih (fun other hother => hpages other (List.mem_cons_of_mem page hother))
      (hshows.trans (homits.showsAlike current (assigned world nodes exports page)))
    rw [inTurn]
    dsimp only
    rw [hafter, hrest, List.map_cons, List.flatMap_cons, ExportStore.bindAll_append]
    exact congrArg (fun outcome => (outcome :: _, _)) houtcome.symm

end Draft

namespace Rendering

variable {setting : Setting} {input : Path} {count : Nat}

/-- All pages export, and they do so under the path of their file. -/
theorem of_mem_drafts {page : Draft} (h : page ∈ drafts setting input count) :
    page.document.path = input ∧ page.session.exporting = true := by
  obtain ⟨number, -, rfl⟩ := List.mem_map.1 h
  exact ⟨rfl, rfl⟩

end Rendering

/-- What is the same for all elements can be put together in any order. -/
theorem flatMap_eq_of_perm {α β : Type} {f : α → List β} {l l' : List α} (h : l.Perm l')
    (hsame : ∀ a ∈ l, ∀ b ∈ l, f a = f b) : l.flatMap f = l'.flatMap f := by
  induction h with
  | nil => rfl
  | cons a _ ih =>
    rw [List.flatMap_cons, List.flatMap_cons,
      ih fun b hb c hc => hsame b (List.mem_cons_of_mem a hb) c (List.mem_cons_of_mem a hc)]
  | swap a b rest =>
    have hab : f b = f a := hsame b List.mem_cons_self a (List.mem_cons_of_mem b List.mem_cons_self)
    rw [List.flatMap_cons, List.flatMap_cons, List.flatMap_cons, List.flatMap_cons, hab]
  | trans hfirst _ ih ih' =>
    have hmiddle := ih' fun a ha b hb => hsame a (hfirst.mem_iff.2 ha) b (hfirst.mem_iff.2 hb)
    exact (ih hsame).trans hmiddle

open Rendering (drafts) in
/-- The pages of a file that is listed nowhere, in any order: every page ends as it would if it were
the only one, and the exports are those before with the assignments of the pages made in that order.
Every name that the last page assigns is exported as it stands in the scope of that page. So the
order makes no difference if all pages make the same assignments. -/
theorem pages_in_turn (setting : Setting) (stores : Stores)
    (hprelude : setting.builtins = .prelude) {input : Path}
    (homits : (Rendering.world setting stores).Omits input) (nodes : List Node) (count : Nat)
    (exports : ExportStore) :
    let world := Rendering.world setting stores
    let pages := drafts setting input count
    let assigned := Draft.assigned world nodes exports
    (∀ order : List Draft, order.Perm pages →
      Draft.inTurn world nodes order exports =
        (order.map fun page => (page.renderOver world nodes exports).1,
          exports.bindAll input (order.flatMap assigned))) ∧
    (∀ (order : List Draft) (last : Draft), (order ++ [last]).Perm pages →
      ∀ name ∈ (assigned last).map Prod.fst,
        ((Draft.inTurn world nodes (order ++ [last]) exports).2.get input).at? name =
          (last.renderOver world nodes exports).2.context.at? name) ∧
    ((∀ page ∈ pages, ∀ other ∈ pages, assigned page = assigned other) →
      ∀ order order' : List Draft, order.Perm pages → order'.Perm pages →
        (Draft.inTurn world nodes order exports).2 =
          (Draft.inTurn world nodes order' exports).2) := by
  intro world pages assigned
  have hturns (order : List Draft) (horder : order.Perm pages) :=
    Draft.inTurn_eq hprelude homits nodes
      (fun page hpage => Rendering.of_mem_drafts (horder.mem_iff.1 hpage))
      (fun _ _ _ _ _ => rfl : world.ShowsAlike exports exports)
  refine ⟨hturns, ?_, ?_⟩
  -- the scope of the last page and the exports get its assignments last, on top of other things
  · intro order last horder name hname
    have hrecorded := Evaluation.renderEach_recorded
      (world.hides_eq last.document.path) hprelude nodes
    rw [hturns _ horder, List.flatMap_append, List.flatMap_singleton, ExportStore.get_bindAll,
      Context.bindAll_append, Draft.renderOver, Evaluation.renderOver, hrecorded.context_eq]
    exact Context.at?_bindAll_of_mem hname _ _
  · intro hsame order order' horder horder'
    have hturn (any : List Draft) (hany : any.Perm pages) :
        (Draft.inTurn world nodes any exports).2 =
          exports.bindAll input (pages.flatMap assigned) := by
      rw [hturns any hany, flatMap_eq_of_perm hany.symm hsame]
    rw [hturn order horder, hturn order' horder']

/-- The trees of `{{: paginate("posts", "t", 1) }}{{ x = curPage }}{{ y = numPages }}`. -/
def numberingNodes : List Node :=
  [⟨.printBlock, [⟨.funcCall, [.leaf (.identifier "paginate") ⟨1, 5⟩,
      ⟨.argsList, [.leaf (.stringLiteral "posts") ⟨1, 14⟩, .leaf (.stringLiteral "t") ⟨1, 23⟩,
        .leaf (.numberLiteral 1) ⟨1, 28⟩], ⟨1, 14⟩⟩], ⟨1, 5⟩⟩], ⟨1, 1⟩⟩,
  ⟨.block, [⟨.statementList, [⟨.expression .assignment,
      [.leaf (.varName ["x"]) ⟨1, 36⟩, .leaf (.varName ["curPage"]) ⟨1, 40⟩], ⟨1, 36⟩⟩], ⟨1, 36⟩⟩],
    ⟨1, 33⟩⟩,
  ⟨.block, [⟨.statementList, [⟨.expression .assignment,
      [.leaf (.varName ["y"]) ⟨1, 53⟩, .leaf (.varName ["numPages"]) ⟨1, 57⟩], ⟨1, 53⟩⟩],
      ⟨1, 53⟩⟩], ⟨1, 50⟩⟩]

def numberingSource : String :=
  "\x7b\x7b: paginate(\"posts\", \"t\", 1) \x7d\x7d\x7b\x7b x = curPage \x7d\x7d" ++
    "\x7b\x7b y = numPages \x7d\x7d"

def twoPosts : Setting := { listing := onlyPosts [.ofText "c", .ofText "d"] }

def blankTemplate : Stores := { templates := TemplateLibrary.empty.declare "t" }

def pageOfTwo (page : Int64) : Draft := .blank ⟨.ofText "a", page, 2, {}⟩

theorem twoPosts_omits : (Rendering.world twoPosts blankTemplate).Omits (.ofText "a") := by
  have ha : (Path.ofText "a").components = [.normal (Text.bytes "a")] := by
    cbv
  have hc : (Path.ofText "c").components = [.normal (Text.bytes "c")] := by
    cbv
  have hd : (Path.ofText "d").components = [.normal (Text.bytes "d")] := by
    cbv
  refine onlyPosts_omits rfl (List.forall_mem_cons.2 ⟨?_, List.forall_mem_singleton.2 ?_⟩)
  · rw [ha, hc]
    decide
  · rw [ha, hd]
    decide

theorem drafts_twoPosts :
    Rendering.drafts twoPosts (.ofText "a") 2 = [pageOfTwo 1, pageOfTwo 2] := rfl

/-- With the last node only, the order of two pages makes no difference. With all of them, `x` is
exported as it stands in the scope of the page that comes last. -/
theorem pages_in_turn_of_two :
    let turns (nodes : List Node) (order : List Draft) :=
      Draft.inTurn (Rendering.world twoPosts blankTemplate) nodes order .empty
    let first := pageOfTwo 1
    let second := pageOfTwo 2
    (turns (numberingNodes.drop 2) [first, second]).2 =
        (turns (numberingNodes.drop 2) [second, first]).2 ∧
      (turns numberingNodes [second, first]).1 = [.ok ["", "", ""], .ok ["", "", ""]] ∧
      ((turns numberingNodes [second, first]).2.get (.ofText "a")).at? ["x"] = some (.int 1) := by
  intro turns first second
  have hswap : [second, first].Perm (Rendering.drafts twoPosts (.ofText "a") 2) :=
    .swap first second []
  obtain ⟨-, -, hsame⟩ :=
    pages_in_turn twoPosts blankTemplate rfl twoPosts_omits (numberingNodes.drop 2) 2 .empty
  obtain ⟨hturns, hlast, -⟩ :=
    pages_in_turn twoPosts blankTemplate rfl twoPosts_omits numberingNodes 2 .empty
  refine ⟨?_, ?_, ?_⟩
  · have hassigned : ∀ page ∈ Rendering.drafts twoPosts (.ofText "a") 2,
        Draft.assigned (Rendering.world twoPosts blankTemplate) (numberingNodes.drop 2) .empty
          page = [(["y"], .int 2)] := by
      rw [drafts_twoPosts]
      refine List.forall_mem_cons.2 ⟨?_, List.forall_mem_singleton.2 ?_⟩ <;> cbv
    exact hsame (fun page hpage other hother =>
      (hassigned page hpage).trans (hassigned other hother).symm) _ _ (.refl _) hswap
  · have hfirst : (first.renderOver (Rendering.world twoPosts blankTemplate) numberingNodes
        .empty).1 = .ok ["", "", ""] := by
      cbv
    have hsecond : (second.renderOver (Rendering.world twoPosts blankTemplate) numberingNodes
        .empty).1 = .ok ["", "", ""] := by
      cbv
    have houtcomes := congrArg Prod.fst (hturns [second, first] hswap)
    rw [List.map_cons, List.map_singleton, hfirst, hsecond] at houtcomes
    exact houtcomes
  · have hassigned : Draft.assigned (Rendering.world twoPosts blankTemplate) numberingNodes .empty
        first = [(["x"], .int 1), (["y"], .int 2)] := by
      cbv
    have hx : (first.renderOver (Rendering.world twoPosts blankTemplate) numberingNodes
        .empty).2.context.at? ["x"] = some (.int 1) := by
      cbv
    exact (hlast [second] first hswap ["x"] (by rw [hassigned]; decide)).trans hx

set_option maxRecDepth 4096 in
theorem numberingSource_reading :
    Template.Reading.ofSource numberingSource = ⟨numberingNodes, none⟩ := by
  cbv

set_option maxRecDepth 4096 in
theorem numberingSource_pages : Rendering.pageCount twoPosts numberingSource = 2 := by
  cbv

/-- Two pages that export their own number under the same name, without any failure: what is
exported is the number of the page whose turn comes last. -/
theorem exports_depend_on_turns :
    let world := Rendering.world twoPosts blankTemplate
    let reading := Template.Reading.ofSource numberingSource
    let pages :=
      Rendering.drafts twoPosts (.ofText "a") (Rendering.pageCount twoPosts numberingSource)
    let turns (order : List Draft) := Draft.inTurn world reading.trees order .empty
    world.Omits (.ofText "a") ∧ reading.fault = none ∧ pages.length = 2 ∧
      (turns pages).1 = [.ok ["", "", ""], .ok ["", "", ""]] ∧
      (turns pages.reverse).1 = [.ok ["", "", ""], .ok ["", "", ""]] ∧
      ((turns pages).2.get (.ofText "a")).at? ["x"] = some (.int 2) ∧
      ((turns pages.reverse).2.get (.ofText "a")).at? ["x"] = some (.int 1) ∧
      (turns pages).2.exported? (.ofText "a") ≠
        (turns pages.reverse).2.exported? (.ofText "a") := by
  rw [numberingSource_reading, numberingSource_pages, drafts_twoPosts]
  have hx : ((Draft.inTurn (Rendering.world twoPosts blankTemplate) numberingNodes
      [pageOfTwo 1, pageOfTwo 2] .empty).2.get (.ofText "a")).at? ["x"] = some (.int 2) := by
    cbv
  have hx' : ((Draft.inTurn (Rendering.world twoPosts blankTemplate) numberingNodes
      [pageOfTwo 2, pageOfTwo 1] .empty).2.get (.ofText "a")).at? ["x"] = some (.int 1) := by
    cbv
  refine ⟨twoPosts_omits, rfl, rfl, ?_, ?_, hx, hx', fun hentry => ?_⟩
  · cbv
  · cbv
  · change ExportStore.exported? _ _ = ExportStore.exported? _ _ at hentry
    rw [ExportStore.get_eq, hentry, ← ExportStore.get_eq] at hx
    have hnumbers : (2 : Int64) = 1 := Value.int.inj (Option.some.inj (hx.symm.trans hx'))
    exact absurd hnumbers (by decide)

end PageTemplate
