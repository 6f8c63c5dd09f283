import PageTemplate.Json.Reader
import PageTemplate.Path

namespace PageTemplate

structure SiteConfig where
  rootPath : Path := .ofText "."
  contentDir : Path := .ofText "content"
  pagesDir : Path := .ofText "pages"
  templateDir : Path := .ofText "templates"
  outputPath : Path := .ofText "output"
  /-- The number of items that may wait between two stages of work. -/
  channelCapacity : Nat := 10
  /-- The number of inclusions that may be under way at once. -/
  maxDepth : Nat := 64
  deriving DecidableEq

inductive ConfigFault
  | malformed
  | zeroCapacity
  deriving DecidableEq

def ConfigFault.message : ConfigFault → String
  | .malformed => "not a site configuration"
  | .zeroCapacity => "channel_capacity must be at least 1"

namespace SiteConfig

def withRoot (root : Path) : SiteConfig := { rootPath := root }

def path? : JsonValue → Option Path
  | .string (some s) => some (.ofText s)
  | _ => none

def count? : JsonValue → Option Nat
  | .number (some n) => if n < UInt64.size then some n else none
  | _ => none

/-- Values under the names of the fields they are for. An array holds the first few in order; in an
object a known name comes once at most, and other names do not matter. -/
def named? (names : List String) : JsonValue → Option (List (String × JsonValue))
  | .array items => if items.length ≤ names.length then some (names.zip items) else none
  | .object fields => do
    let keys ← fields.mapM Prod.fst
    if names.all fun name => keys.count name ≤ 1 then some (keys.zip (fields.map Prod.snd))
    else none
  | _ => none

def field? {α : Type} (fields : List (String × JsonValue)) (name : String) (missing : α)
    (read : JsonValue → Option α) : Option α :=
  match fields.lookup name with
  | none => some missing
  | some value => read value

def maxDepth? (json : JsonValue) : Option Nat := do
  let fields ← named? ["max_depth"] json
  field? fields "max_depth" ({} : SiteConfig).maxDepth count?

def ofJson? (json : JsonValue) : Option SiteConfig := do
  let standard : SiteConfig := {}
  let fields ← named? ["root_path", "content_dir", "pages_dir", "template_dir", "output_path",
    "channel_capacity", "eval"] json
  return {
    rootPath := ← field? fields "root_path" standard.rootPath path?
    contentDir := ← field? fields "content_dir" standard.contentDir path?
    pagesDir := ← field? fields "pages_dir" standard.pagesDir path?
    templateDir := ← field? fields "template_dir" standard.templateDir path?
    outputPath := ← field? fields "output_path" standard.outputPath path?
    channelCapacity := ← field? fields "channel_capacity" standard.channelCapacity count?
    maxDepth := ← field? fields "eval" standard.maxDepth maxDepth? }

def read (text : String) : Except ConfigFault SiteConfig :=
  match JsonValue.read? text >>= ofJson? with
  | none => .error .malformed
  | some config => if config.channelCapacity = 0 then .error .zeroCapacity else .ok config

def resolve (config : SiteConfig) (dir : Path) : Path := config.rootPath.join dir

def contentRoot (config : SiteConfig) : Path := config.resolve config.contentDir

def pagesRoot (config : SiteConfig) : Path := config.resolve config.pagesDir

def templateRoot (config : SiteConfig) : Path := config.resolve config.templateDir

def outputRoot (config : SiteConfig) : Path := config.resolve config.outputPath

end SiteConfig
end PageTemplate
