import PageTemplate.Draft
import PageTemplate.Markdown
import PageTemplate.Template.Reading

/-!
Files made into pages while they are read. Pages are handed over only when all of them are done;
what a file has exported, or a template gained, before a failure stays.
-/

namespace PageTemplate

structure Stores where
  exports : ExportStore := .empty
  templates : TemplateLibrary := .empty

structure Setting where
  /-- The files under a content path, or the reason why they cannot be listed. -/
  listing : String → Except String (List Path) := fun _ => .ok []
  builtins : Builtins := .prelude
  maxDepth : Nat := 64
  map : PageMap := {}
  /-- Whether pages of Markdown files are converted. -/
  markdown : Bool := true

structure Page where
  path : Path
  text : String
  deriving DecidableEq

namespace Rendering

/-- Read a source into the library, as far as it can be read. -/
def cacheTemplate (stores : Stores) (key source : String) : Except Failure Unit × Stores :=
  let reading := Template.Reading.ofSource source
  let stores := { stores with templates := stores.templates.append key reading.trees }
  match reading.fault with
  | none => (.ok (), stores)
  | some fault => (.error (fault.located (.ofText key)), stores)

/-- The pages of a source: as many as the content needs if the source asks for it, else one. -/
def pageCount (setting : Setting) (source : String) : Nat :=
  match Pagination.Request.scan? source with
  | none => 1
  | some request =>
    match setting.listing request.contentPath with
    | .ok files => request.pagesFor files.length
    | .error _ => request.pagesFor 0

def world (setting : Setting) (stores : Stores) : World where
  templates := stores.templates
  listing := setting.listing
  builtins := setting.builtins
  maxDepth := setting.maxDepth

def drafts (setting : Setting) (input : Path) (count : Nat) : List Draft :=
  (Pagination.numbersBelow 1 (count + 1)).map fun page =>
    .blank ⟨input, page, clampInt64 count, setting.map⟩

def finish (setting : Setting) (draft : Draft) : Page where
  path := setting.map.outputPath draft.document.path draft.document.page
  text := if setting.markdown then Markdown.process draft.document.path draft.text else draft.text

/-- The pages of a file. Its exports begin with a link to the first page. A failing tree counts
before a fault further down. -/
def renderFile (setting : Setting) (stores : Stores) (input : Path) (source : String) :
    Except Failure (List Page) × Stores :=
  let href := setting.map.href input 1
  let linked := stores.exports.insert input ["_href"] (.str href)
  let pages := drafts setting input (pageCount setting source)
  let reading := Template.Reading.ofSource source
  let (filled, exports) := Draft.addAll (world setting stores) reading.trees pages linked
  let stores := { stores with exports := exports }
  match filled, reading.fault with
  | .error e, _ => (.error ((Failure.eval e).located input), stores)
  | .ok _, some fault => (.error (fault.located input), stores)
  | .ok filled, none => (.ok (filled.map (finish setting)), stores)

end Rendering
end PageTemplate
