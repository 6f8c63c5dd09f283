import PageTemplate.Proofs.PageOrder
import PageTemplate.Proofs.PagePaths

namespace PageTemplate

namespace Pagination

theorem exists_of_mem_numbersBelow {first past : Int} {page : Int64}
    (h : page ∈ numbersBelow first past) :
    ∃ n : Int, first ≤ n ∧ n < past ∧ page = Int64.ofInt n := by
  obtain ⟨i, hi, rfl⟩ := List.mem_map.1 h
  have hlt := List.mem_range.1 hi
  exact ⟨first + i, by omega, by omega, rfl⟩

/-- The pages before one are numbered from one and do not reach it. -/
theorem exists_of_mem_pagesBefore {page count : Int64} {href : Int64 → String}
    {entry : String × Value} (h : entry ∈ (pagesBefore page count href).entries) :
    ∃ n : Int, 1 ≤ n ∧ n < page.toInt ∧ entry = link href (Int64.ofInt n) := by
  obtain ⟨other, hother, rfl⟩ := List.mem_map.1 h
  obtain ⟨n, hfirst, hpast, rfl⟩ := exists_of_mem_numbersBelow hother
  exact ⟨n, by omega, hpast, rfl⟩

/-- The pages after one do not go past the last. -/
theorem exists_of_mem_pagesAfter {page last count : Int64} {href : Int64 → String}
    (hpage : page < Int64.maxValue) {entry : String × Value}
    (h : entry ∈ (pagesAfter page last count href).entries) :
    ∃ n : Int, page.toInt < n ∧ n ≤ last.toInt ∧ entry = link href (Int64.ofInt n) := by
  obtain ⟨other, hother, rfl⟩ := List.mem_map.1 h
  obtain ⟨n, hfirst, hpast, rfl⟩ := exists_of_mem_numbersBelow hother
  have hlt := Int64.lt_iff_toInt_lt.1 hpage
  have hmin := Int64.le_toInt page
  rw [toInt_clampInt64] at hfirst
  refine ⟨n, ?_, by omega, rfl⟩
  have hminValue : Int64.minValue.toInt = -9223372036854775808 := by decide
  omega

end Pagination

namespace Builtin

/-- The function hands out the links of its own page. -/
theorem run_pagesBefore (host : Host) (count : Int64) (session : Session) :
    (pagesBefore.run host (pagesBefore.implicit.map (Implicit.value host.document) ++
      [.int count])).run session =
      (.ok (.container (Pagination.pagesBefore host.document.page count
        (host.document.map.href (.ofText host.document.path.shown)))), session) := rfl

theorem run_pagesAfter (host : Host) (count : Int64) (session : Session) :
    (pagesAfter.run host (pagesAfter.implicit.map (Implicit.value host.document) ++
      [.int count])).run session =
      (.ok (.container (Pagination.pagesAfter host.document.page host.document.pageCount count
        (host.document.map.href (.ofText host.document.path.shown)))), session) := rfl

end Builtin

namespace Draft

variable {world : World} {drafts filled : List Draft} {exports : ExportStore}

/-- A tree changes what is on the pages, not which pages they are. -/
theorem addToEach_documents (node : Node)
    (h : (addToEach world node drafts exports).1 = .ok filled) :
    filled.map Draft.document = drafts.map Draft.document := by
  induction drafts generalizing filled exports with
  | nil =>
    cases h
    rfl
  | cons draft rest ih =>
    rw [addToEach, add] at h
    rcases hrun : (Evaluation.render world draft.document node).run
      { draft.session with exports := exports } with ⟨_ | text, after⟩
    · rw [hrun] at h
      cases h
    · rw [hrun] at h
      dsimp only [Except.map] at h
      rcases hrest : addToEach world node rest after.exports with ⟨_ | pages, last⟩
      · rw [hrest] at h
        cases h
      · rw [hrest] at h
        cases h
        exact congrArg (draft.document :: ·) (ih (congrArg Prod.fst hrest))

theorem addAll_documents (nodes : List Node)
    (h : (addAll world nodes drafts exports).1 = .ok filled) :
    filled.map Draft.document = drafts.map Draft.document := by
  induction nodes generalizing drafts exports with
  | nil =>
    cases h
    rfl
  | cons node nodes ih =>
    rw [addAll] at h
    rcases hrun : addToEach world node drafts exports with ⟨_ | pages, after⟩
    · rw [hrun] at h
      cases h
    · rw [hrun] at h
      exact (ih h).trans (addToEach_documents node (congrArg Prod.fst hrun))

end Draft

namespace Rendering

variable {setting : Setting} {stores : Stores} {input : Path} {source : String} {pages : List Page}

/-- The pages of a file are written one for each number, from one on. -/
theorem renderFile_paths (h : (renderFile setting stores input source).1 = .ok pages) :
    pages.map Page.path =
      (Pagination.numbersBelow 1 (pageCount setting source + 1)).map
        (setting.map.outputPath input) := by
  unfold renderFile at h
  dsimp only at h
  split at h
  · cases h
  · cases h
  · next filled hfilled hfault =>
    cases h
    have hdocuments := Draft.addAll_documents _ hfilled
    have hpaths (documents : List Draft) : (documents.map (finish setting)).map Page.path =
        (documents.map Draft.document).map fun document =>
          setting.map.outputPath document.path document.page := by
      rw [List.map_map, List.map_map]
      rfl
    rw [hpaths, hdocuments, drafts, List.map_map, List.map_map]
    rfl

/-- The pages of a file are numbered from one and have everything else in common. -/
theorem document_of_drafts {count k : Nat} {document : Document}
    (h : ((drafts setting input count)[k]?).map Draft.document = some document) :
    k < count ∧ document = ⟨input, Int64.ofInt (1 + k), clampInt64 count, setting.map⟩ := by
  obtain ⟨draft, hdraft, rfl⟩ := Option.map_eq_some_iff.1 h
  rw [drafts, Pagination.numbersBelow_one, List.map_map, List.getElem?_map] at hdraft
  obtain ⟨i, hi, rfl⟩ := Option.map_eq_some_iff.1 hdraft
  obtain ⟨hk, rfl⟩ := List.getElem?_eq_some_iff.1 hi
  rw [List.length_range] at hk
  rw [List.getElem_range]
  exact ⟨hk, rfl⟩

end Rendering

/-- An entry with the number of a page and a way to it from the output root. -/
def Lists (entry : String × Value) (number : Int64) (href : String) : Prop :=
  entry.1 = Text.decimal number ∧ ∃ known, entry.2 = .container known ∧
    known.get? "page" = some (.int number) ∧ known.get? "href" = some (.str href)

theorem Pagination.lists_link (href : Int64 → String) (page : Int64) :
    Lists (link href page) page (href page) := ⟨rfl, _, rfl, rfl, rfl⟩

/-- An entry lists one of the pages, but not the one at a place. It leads to the page that it lists,
except that nothing needs to lead to the first page of a file whose stem is a dot. -/
def LeadsElsewhere (map : PageMap) (stem : Option (List UInt8)) (pages : List Page) (place : Nat)
    (entry : String × Value) : Prop :=
  ∃ p page href, p ≠ place ∧ pages[p]? = some page ∧ Lists entry (Int64.ofInt (1 + p)) href ∧
    (p ≠ 0 ∨ stem ≠ some [Path.dot] → map.Reaches href page.path)

namespace Path

variable {path : Path}

/-- A path that is text is the path of its text. -/
theorem ofText_shown (h : Text.IsText path.bytes) : .ofText path.shown = path :=
  congrArg Path.mk h

end Path

section

variable {map : PageMap} {rel input : Path} {names : List (List UInt8)}

/-- A file below the source root has directories, a name and a stem. -/
theorem PageMap.exists_stem (hnames : names ≠ []) (hrel : rel.components = names.map .normal)
    (hinput : input.components = (map.sourceRoot.join rel).components) :
    ∃ dirs name, names = dirs ++ [name] ∧ rel.stem? = some (Path.splitExtension name).1 ∧
      input.components = map.sourceRoot.components ++ (dirs ++ [name]).map .normal := by
  obtain ⟨dirs, name, rfl⟩ := (List.eq_nil_or_concat' names).resolve_left hnames
  refine ⟨dirs, name, rfl, ?_, ?_⟩
  · rw [Path.stem?, Path.fileName?_eq hrel]
    rfl
  · rw [hinput, Path.join_components _ (Path.filter_segments hrel).1, hrel]

/-- The link is read as text, and the way to the page is not. -/
theorem PageMap.reaches_href_iff (hnames : names ≠ []) (hrel : rel.components = names.map .normal)
    (hinput : input.components = (map.sourceRoot.join rel).components) {page : Int64}
    (hpage : 1 ≤ page) :
    map.Reaches (map.href input page) (map.outputPath input page) ↔
      (∀ dir ∈ names.dropLast, Text.IsText dir) ∧
        (page = 1 → ∀ stem ∈ rel.stem?, Text.IsText stem ∧ stem ≠ [Path.dot]) := by
  obtain ⟨dirs, name, rfl, hstem, hplace⟩ := exists_stem hnames hrel hinput
  rw [reaches_iff hplace, List.dropLast_concat, hstem]
  have hfirst : page ≤ 1 ↔ page = 1 :=
    ⟨fun hle => Int64.le_antisymm hle hpage, fun heq => heq ▸ Int64.le_refl 1⟩
  refine and_congr_right' (imp_congr hfirst ⟨fun h stem hmem => ?_, fun h => h _ rfl⟩)
  exact Option.some.inj hmem ▸ h

/-- The link to a page of a file leads to it. -/
theorem leadsElsewhere_link (hnames : names ≠ []) (hrel : rel.components = names.map .normal)
    (hinput : input.components = (map.sourceRoot.join rel).components)
    (htext : Text.IsText input.bytes) {pages : List Page}
    (hpaths : pages.map Page.path = (Pagination.numbersBelow 1 (pages.length + 1)).map
      (map.outputPath input))
    (hfew : (pages.length : Int) < Int64.maxValue.toInt) {n : Int} (hone : 1 ≤ n)
    (hn : n ≤ pages.length) {place : Nat} (hne : n ≠ 1 + place) :
    LeadsElsewhere map rel.stem? pages place
      (Pagination.link (map.href input) (Int64.ofInt n)) := by
  have hmax : Int64.maxValue.toInt = 9223372036854775807 := by decide
  obtain ⟨p, rfl⟩ : ∃ p : Nat, n = 1 + p := ⟨(n - 1).toNat, by omega⟩
  have hp : p < pages.length := by omega
  have hvalue : (Int64.ofInt (1 + p)).toInt = 1 + p :=
    Int64.toInt_ofInt_of_le (by omega) (by omega)
  have hpath : pages[p].path = map.outputPath input (Int64.ofInt (1 + p)) := by
    rw [Pagination.numbersBelow_one, List.map_map] at hpaths
    have hget := List.getElem_of_eq hpaths (by simpa using hp)
    simpa using hget
  have hfirst : 1 ≤ Int64.ofInt (1 + p) := by
    rw [Int64.le_iff_toInt_le, hvalue]
    exact hone
  refine ⟨p, pages[p], _, by omega, List.getElem?_eq_getElem hp, Pagination.lists_link _ _, ?_⟩
  intro h
  obtain ⟨dirs, name, rfl, hstem, hplace⟩ := PageMap.exists_stem hnames hrel hinput
  have hall : ∀ other ∈ dirs ++ [name], Text.IsText other := fun other hother =>
    Path.isText_of_bytes htext other
      (hplace ▸ List.mem_append_right _ (List.mem_map_of_mem hother))
  obtain ⟨hdirs, hname⟩ := List.forall_mem_append.1 hall
  rw [hpath, PageMap.reaches_href_iff hnames hrel hinput hfirst, List.dropLast_concat]
  refine ⟨hdirs, fun heq stem hmem => ?_⟩
  obtain rfl := Option.some.inj (hstem.symm.trans hmem)
  refine ⟨Path.isText_stem (hname name (List.mem_singleton_self name)), fun hdot => ?_⟩
  -- a stem that is a dot matters on the first page only
  rcases h with hlater | hother
  · rw [heq, show (1 : Int64).toInt = 1 by decide] at hvalue
    omega
  · exact hother (hdot ▸ hstem)

/-- The pages of a file under the source root are written to different places. A link leads to the
place of its page just where the directories on the way are text and, for the first page, the stem
of the file is a text other than a dot: links are text. If the whole path is text, then the links
on a page are links to other pages of its file, and only to the first page of a file whose stem is
a dot no link leads. -/
theorem links_lead_to_pages (map : PageMap) (hnames : names ≠ [])
    (hrel : rel.components = names.map .normal)
    (hinput : input.components = (map.sourceRoot.join rel).components) :
    (∀ i j : Int64, 1 ≤ i → 1 ≤ j → i ≠ j →
      (map.outputPath input i).components ≠ (map.outputPath input j).components) ∧
    (∀ i : Int64, 1 ≤ i → (map.Reaches (map.href input i) (map.outputPath input i) ↔
      (∀ dir ∈ names.dropLast, Text.IsText dir) ∧
        (i = 1 → ∀ stem ∈ rel.stem?, Text.IsText stem ∧ stem ≠ [Path.dot]))) ∧
    (Text.IsText input.bytes → ∀ setting stores source pages, setting.map = map →
      (Rendering.renderFile setting stores input source).1 = .ok pages →
      (pages.length : Int) < Int64.maxValue.toInt →
      ∀ (k : Nat) (host : Host),
        ((Rendering.drafts setting input (Rendering.pageCount setting source))[k]?).map
          Draft.document = some host.document →
        ∀ builtin ∈ [Builtin.pagesBefore, Builtin.pagesAfter], ∀ (count : Int64) session,
          ∃ links : Context,
            (builtin.run host (builtin.implicit.map (Implicit.value host.document) ++
              [.int count])).run session = (.ok (.container links), session) ∧
            ∀ entry ∈ links.entries, LeadsElsewhere map rel.stem? pages k entry) := by
  refine ⟨?_, fun i hi => PageMap.reaches_href_iff hnames hrel hinput hi, ?_⟩
  · intro i j hi hj hne heq
    obtain ⟨dirs, name, -, -, hplace⟩ := PageMap.exists_stem hnames hrel hinput
    exact hne (PageMap.outputPath_injective hplace hi hj heq)
  · intro htext setting stores source pages hmap hpages hfew k host hhost builtin hbuiltin count
      session
    obtain ⟨hk, hdocument⟩ := Rendering.document_of_drafts hhost
    have hpaths := Rendering.renderFile_paths hpages
    have htotal : pages.length = Rendering.pageCount setting source := by
      have hlength := congrArg List.length hpaths
      rw [Pagination.numbersBelow_one] at hlength
      simpa using hlength
    rw [← htotal, hmap] at hpaths
    rw [← htotal] at hk hdocument
    have hmax : Int64.maxValue.toInt = 9223372036854775807 := by decide
    have hpage : (Int64.ofInt (1 + k)).toInt = 1 + k :=
      Int64.toInt_ofInt_of_le (by omega) (by omega)
    -- the function is told the path as text, which for this file loses nothing
    have hshown : Path.ofText host.document.path.shown = input := by
      rw [hdocument]
      exact Path.ofText_shown htext
    rcases List.mem_pair.1 hbuiltin with rfl | rfl
    · refine ⟨_, Builtin.run_pagesBefore host count session, fun entry hentry => ?_⟩
      rw [hshown, hdocument, hmap] at hentry
      obtain ⟨n, hone, hlt, rfl⟩ := Pagination.exists_of_mem_pagesBefore hentry
      rw [hpage] at hlt
      exact leadsElsewhere_link hnames hrel hinput htext hpaths hfew hone (by omega) (by omega)
    · refine ⟨_, Builtin.run_pagesAfter host count session, fun entry hentry => ?_⟩
      rw [hshown, hdocument, hmap] at hentry
      -- there are too few pages for the successor to saturate
      have hlast : Int64.ofInt (1 + k) < Int64.maxValue := by
        rw [Int64.lt_iff_toInt_lt, hpage]
        omega
      obtain ⟨n, hgt, hle, rfl⟩ := Pagination.exists_of_mem_pagesAfter hlast hentry
      rw [hpage] at hgt
      have hmin : Int64.minValue.toInt = -9223372036854775808 := by decide
      rw [toInt_clampInt64] at hle
      exact leadsElsewhere_link hnames hrel hinput htext hpaths hfew (by omega) (by omega)
        (by omega)

end

def sourceToOut : PageMap := ⟨.ofText "src", .ofText "out"⟩

/-- The second of two pages has a link to the first one. -/
theorem links_lead_to_pages_of_two :
    let setting : Setting := { twoPosts with map := sourceToOut }
    let input : Path := .ofText "src/notes/b"
    let pages : List Page :=
      [⟨.ofText "out/notes/b.html", ""⟩, ⟨.ofText "out/notes/b_002.html", ""⟩]
    let links := Pagination.pagesBefore 2 5 (sourceToOut.href input)
    (Rendering.renderFile setting blankTemplate input numberingSource).1 = .ok pages ∧
      links.names = ["1"] ∧
      (∀ entry ∈ links.entries,
        LeadsElsewhere sourceToOut (some (Text.bytes "b")) pages 1 entry) ∧
      sourceToOut.Reaches (sourceToOut.href input 1) (sourceToOut.outputPath input 1) := by
  intro setting input pages links
  have hpages : (Rendering.renderFile setting blankTemplate input numberingSource).1 =
      .ok pages := by
    have hsome : (Rendering.renderFile setting blankTemplate input
        numberingSource).1.toOption = some pages := by
      decide +kernel
    cases hresult : (Rendering.renderFile setting blankTemplate input numberingSource).1 with
    | error failure =>
      rw [hresult] at hsome
      cases hsome
    | ok made =>
      rw [hresult] at hsome
      exact congrArg Except.ok (Option.some.inj hsome)
  have hcount : Rendering.pageCount setting numberingSource = 2 := by
    decide +kernel
  let host : Host := ⟨⟨input, 2, 2, sourceToOut⟩, fun _ => pure [], fun _ _ => pure ""⟩
  have hhost : ((Rendering.drafts setting input (Rendering.pageCount setting
      numberingSource))[1]?).map Draft.document = some host.document := by
    rw [hcount]
    rfl
  have hrel : (Path.ofText "notes/b").components =
      [Text.bytes "notes", Text.bytes "b"].map .normal := by
    decide +kernel
  have hinput : input.components =
      (sourceToOut.sourceRoot.join (.ofText "notes/b")).components := by
    decide +kernel
  have hstem : (Path.ofText "notes/b").stem? = some (Text.bytes "b") := by
    decide +kernel
  have hshown : Path.ofText input.shown = input := Path.ofText_shown (Text.isText_bytes _)
  obtain ⟨-, hreaches, hfile⟩ :=
    links_lead_to_pages sourceToOut (List.cons_ne_nil _ [Text.bytes "b"]) hrel hinput
  obtain ⟨listed, hrun, hlinks⟩ := hfile (Text.isText_bytes _) setting blankTemplate numberingSource
    pages rfl hpages (by decide) 1 host hhost Builtin.pagesBefore List.mem_cons_self 5 {}
  rw [Builtin.run_pagesBefore, hshown] at hrun
  obtain rfl : links = listed := Value.container.inj (Except.ok.inj (congrArg Prod.fst hrun))
  rw [hstem] at hlinks hreaches
  refine ⟨hpages, by decide +kernel, hlinks, (hreaches 1 (Int64.le_refl 1)).2 ?_⟩
  decide +kernel

/-- Where the stem of a file is a dot, the place of its first page is the directory above the
output root, and the link to it is empty. -/
theorem no_link_to_first_page_of_dots :
    let rel : Path := .ofText "..a"
    let input : Path := .ofText "src/..a"
    rel.components = [.normal (Text.bytes "..a")] ∧ sourceToOut.sourceRoot.join rel = input ∧
      sourceToOut.outputPath input 1 = .ofText "out/.." ∧ sourceToOut.href input 1 = "" ∧
      ¬sourceToOut.Reaches (sourceToOut.href input 1) (sourceToOut.outputPath input 1) := by
  unfold PageMap.Reaches
  decide +kernel

-- a name that is no text: the page keeps the byte 0xFF, and the link has U+FFFD in its place
example :
    let input : Path := ⟨Text.bytes "src/" ++ 0xFF :: Text.bytes ".md"⟩
    sourceToOut.outputPath input 1 = ⟨Text.bytes "out/" ++ 0xFF :: Text.bytes ".html"⟩ ∧
      sourceToOut.href input 1 = "\uFFFD.html" ∧
      ¬sourceToOut.Reaches (sourceToOut.href input 1) (sourceToOut.outputPath input 1) := by
  unfold PageMap.Reaches
  decide +kernel

end PageTemplate
