import PageTemplate.FileTree
import PageTemplate.PageStore
import PageTemplate.Rendering
import PageTemplate.Template

namespace PageTemplate

inductive Target
  | disk | memory | nowhere
  deriving DecidableEq

structure Report where
  templates : Nat
  content : Nat
  pages : Nat
  deriving DecidableEq

/-- A build under way: the files, what they have left behind, and the pages kept in memory. -/
structure Build where
  disk : Disk
  stores : Stores := {}
  memory : PageStore := .empty

namespace Site

def loadConfig (disk : Disk) (path : Path) : Except Failure SiteConfig :=
  match disk.readText path with
  | .error fault => .error (.io path fault)
  | .ok text =>
    match SiteConfig.read text with
    | .error fault => .error (.config path fault)
    | .ok config => .ok config

def phaseFiles (disk : Disk) (dir : Path) : Except Failure (List Path) :=
  if disk.isDirectory dir then
    match disk.walk dir with
    | .ok files => .ok files
    | .error fault => .error (.io dir fault)
  else .ok []

def cacheFiles (root : Path) : List Path → Build → Except Failure Build
  | [], build => .ok build
  | path :: rest, build =>
    match build.disk.readText path with
    | .error _ => cacheFiles root rest build
    | .ok source =>
      match Rendering.cacheTemplate build.stores (Template.key root path) source with
      | (.ok (), stores) => cacheFiles root rest { build with stores := stores }
      | (.error e, _) => .error e

def deliver (target : Target) : List Page → Build → Except Failure Build
  | [], build => .ok build
  | page :: rest, build =>
    match target with
    | .nowhere => deliver target rest build
    | .memory =>
      deliver target rest { build with memory := build.memory.insert page.path page.text }
    | .disk =>
      match build.disk.write page.path page.text.toUTF8 with
      | .ok disk => deliver target rest { build with disk := disk }
      | .error fault => .error (.io page.path fault)

def listing (disk : Disk) (contentRoot : Path) (path : String) : Except String (List Path) :=
  match disk.walk (contentRoot.join (.ofText path)) with
  | .ok files => .ok files
  | .error fault => .error fault.message

def renderFiles (config : SiteConfig) (target : Target) (markdown : Bool) (map : PageMap) :
    List Path → Build → Except Failure Build
  | [], build => .ok build
  | path :: rest, build =>
    match build.disk.readText path with
    | .error _ => renderFiles config target markdown map rest build
    | .ok source =>
      let setting : Setting :=
        { listing := listing build.disk config.contentRoot
          maxDepth := config.maxDepth
          map := map
          markdown := markdown }
      match Rendering.renderFile setting build.stores path source with
      | (.error e, _) => .error e
      | (.ok pages, stores) =>
        match deliver target pages { build with stores := stores } with
        | .error e => .error (e.located path)
        | .ok build => renderFiles config target markdown map rest build

def build (config : SiteConfig) (target : Target) (markdown : Bool) (disk : Disk) :
    Except Failure (Report × Build) := do
  let templates ← phaseFiles disk config.templateRoot
  let cached ← cacheFiles config.templateRoot templates { disk := disk }
  let contents ← phaseFiles cached.disk config.contentRoot
  let contentMap : PageMap := ⟨config.contentRoot, config.outputRoot⟩
  let filled ← renderFiles config target markdown contentMap contents cached
  let pages ← phaseFiles filled.disk config.pagesRoot
  let pageMap : PageMap := ⟨config.pagesRoot, config.outputRoot⟩
  let finished ← renderFiles config target markdown pageMap pages filled
  return (⟨templates.length, contents.length, pages.length⟩, finished)

end Site
end PageTemplate
