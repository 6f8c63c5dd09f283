import PageTemplate.Path
import PageTemplate.Text.Decimal

namespace PageTemplate

structure PageMap where
  sourceRoot : Path := ⟨[]⟩
  outputRoot : Path := ⟨[]⟩
  deriving DecidableEq

namespace PageMap

/-- The name of a page in place of the name of its file. Only the names of further pages are made as
text. -/
def pageName (path : Path) (page : Int64) : Path :=
  if page ≤ 1 then path.withExtension (Text.bytes "html")
  else
    let stem := Text.lossy (path.stem?.getD [])
    path.withFileName (Text.bytes (stem ++ "_" ++ Text.paddedDecimal 3 page ++ ".html"))

def relative (map : PageMap) (input : Path) (page : Int64) : Path :=
  pageName ((input.stripPrefix? map.sourceRoot).getD input) page

def outputPath (map : PageMap) (input : Path) (page : Int64) : Path :=
  map.outputRoot.join (map.relative input page)

def href (map : PageMap) (input : Path) (page : Int64) : String :=
  (map.relative input page).slashed

end PageMap
end PageTemplate
