import PageTemplate.CommandLine

namespace PageTemplate.Program

def usage : String :=
  "Usage: build [--config <FILE>] [--dry-run] [--verbose]\n\n" ++
  "Renders templates, content and pages into the output directory.\n" ++
  "  -c, --config <FILE>  the configuration of the site (stanza.json)\n" ++
  "      --dry-run        evaluate everything but write nothing\n"

/-- What lies at a path now, if it can be read. -/
partial def picture (path : String) : IO (Option FileTree) :=
  try
    let place ← IO.FS.realPath path
    if ← place.isDir then
      let mut entries := []
      for entry in ← place.readDir do
        if let some tree ← picture entry.path.toString then
          entries := FileTree.setEntry (Text.bytes entry.fileName) tree entries
      return some (.directory entries)
    else return some (.file (← IO.FS.readBinFile place))
  catch _ => return none

def take (disk : Disk) (path : Path) : IO Disk := do
  match ← picture path.shown with
  | none => return disk
  | some tree => return { disk with top := disk.top.put (disk.namesOn path) tree }

def places (disk : Disk) (config : Path) : List Path :=
  match Site.loadConfig disk config with
  | .error _ => []
  | .ok site =>
    [site.rootPath, site.templateRoot, site.contentRoot, site.pagesRoot, site.outputRoot]

def writeChanges (after before : Disk) : IO Unit := do
  for (path, content) in after.changesUnder before [] (.ofText "/") do
    if let some parent := path.parent? then
      IO.FS.createDirAll parent.shown
    IO.FS.writeBinFile path.shown content

def run (args : List String) : IO UInt32 := do
  let here : Path := .ofText (← IO.currentDir).toString
  let top : Disk := ⟨.directory [], []⟩
  let names := top.namesOn here
  let empty : Disk := ⟨top.top.put names (.directory []), names⟩
  let disk ← match CommandLine.read {} args with
    | .build config _ => do
      let disk ← take empty config
      (places disk config).foldlM take disk
    | _ => pure empty
  match CommandLine.run args disk with
  | .information =>
    IO.print usage
    return 0
  | .misuse =>
    IO.eprint usage
    return 2
  | .failed headline failure =>
    IO.eprint (CommandLine.failureReport headline failure)
    return 1
  | .done after =>
    writeChanges after disk
    return 0

end PageTemplate.Program

def main (args : List String) : IO UInt32 := PageTemplate.Program.run args
