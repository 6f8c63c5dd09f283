import PageTemplate.FileFault

namespace PageTemplate

inductive FileTree
  | file (content : ByteArray)
  | directory (entries : List (List UInt8 × FileTree))

namespace FileTree

def setEntry (name : List UInt8) (tree : FileTree) :
    List (List UInt8 × FileTree) → List (List UInt8 × FileTree)
  | [] => [(name, tree)]
  | (other, old) :: rest =>
    match Text.compareBytes name other with
    | .lt => (name, tree) :: (other, old) :: rest
    | .eq => (name, tree) :: rest
    | .gt => (other, old) :: setEntry name tree rest

def get? : FileTree → List (List UInt8) → Option FileTree
  | tree, [] => some tree
  | .directory entries, name :: rest => (entries.lookup name).bind fun tree => tree.get? rest
  | .file _, _ :: _ => none

/-- Put a tree under names from the top down, with directories on the way. Below a file nothing can
be put. -/
def put : FileTree → List (List UInt8) → FileTree → FileTree
  | _, [], new => new
  | .directory entries, name :: rest, new =>
    .directory (setEntry name (put ((entries.lookup name).getD (.directory [])) rest new) entries)
  | .file content, _ :: _, _ => .file content

mutual

/-- The files of a tree that lies at a path, with their contents. Each directory is gone through in
order, and what a subdirectory holds comes in its place. -/
def files (path : Path) : FileTree → List (Path × ByteArray)
  | .file content => [(path, content)]
  | .directory entries => filesIn path entries

def filesIn (path : Path) : List (List UInt8 × FileTree) → List (Path × ByteArray)
  | [] => []
  | (name, tree) :: rest => files (path.join ⟨name⟩) tree ++ filesIn path rest

end

end FileTree

structure Disk where
  top : FileTree
  here : List (List UInt8)

namespace Disk

def longestName : Nat := 255

/-- One more than the longest path that can be followed, in bytes. -/
def pathLimit : Nat := 4096

def checkName (name : List UInt8) : Except FileFault Unit :=
  if name.length > longestName then .error .nameTooLong else .ok ()

/-- Follow segments from a place, given by its names from the bottom up. -/
def follow (disk : Disk) :
    List (List UInt8) → List (List UInt8) → Except FileFault (List (List UInt8))
  | place, [] => .ok place
  | place, segment :: rest =>
    match disk.top.get? place.reverse with
    | none => .error .notFound
    | some (.file _) => .error .notADirectory
    | some (.directory entries) =>
      if segment = [Path.dot, Path.dot] then disk.follow place.tail rest
      else if !Path.isNamed segment then disk.follow place rest
      else if segment.length > longestName then .error .nameTooLong
      else if (entries.lookup segment).isNone then .error .notFound
      else disk.follow (segment :: place) rest

def start (disk : Disk) (path : Path) :
    Except FileFault (List (List UInt8) × List (List UInt8)) :=
  if path.bytes.contains 0 then .error .zeroInPath
  else if path.bytes.isEmpty then .error .notFound
  else if path.bytes.length ≥ pathLimit then .error .nameTooLong
  else if path.isAbsolute then .ok ([], path.segments)
  else .ok (disk.here.reverse, path.segments)

def find (disk : Disk) (path : Path) : Except FileFault FileTree := do
  let (place, segments) ← disk.start path
  let found ← disk.follow place segments
  match disk.top.get? found.reverse with
  | some tree => .ok tree
  | none => .error .notFound

def isDirectory (disk : Disk) (path : Path) : Bool :=
  match disk.find path with
  | .ok (.directory _) => true
  | _ => false

def readText (disk : Disk) (path : Path) : Except FileFault String := do
  match ← disk.find path with
  | .directory _ => .error .isADirectory
  | .file content =>
    match String.fromUTF8? content with
    | some text => .ok text
    | none => .error .notText

/-- The files at and under a path, in order. A single dash stands for no files at all. -/
def walk (disk : Disk) (path : Path) : Except FileFault (List Path) :=
  if path.components = [.normal (Text.bytes "-")] then .ok []
  else
    match disk.find path with
    | .ok tree => .ok ((tree.files path).map Prod.fst)
    | .error fault => .error (.walk path fault)

/-- The directory that the last segment of a path lies in, that segment, and what is there. -/
def lastStep (disk : Disk) (place segments : List (List UInt8)) :
    Except FileFault (List (List UInt8) × List UInt8 × Option FileTree) := do
  let last := segments.getLast?.getD []
  let found ← disk.follow place segments.dropLast
  match disk.top.get? found.reverse with
  | some (.directory entries) =>
    checkName last
    .ok (found, last, entries.lookup last)
  | some (.file _) => .error .notADirectory
  | none => .error .notFound

def makeDirectory (disk : Disk) (path : Path) : Except FileFault Disk := do
  let (place, segments) ← disk.start path
  let (found, last, old) ← disk.lastStep place
    (segments.reverse.dropWhile fun s => s.isEmpty).reverse
  if old.isSome || last = [Path.dot, Path.dot] || !Path.isNamed last then .error .exists
  else .ok { disk with top := disk.top.put (last :: found).reverse (.directory []) }

def surrounding : Nat → Path → List Path
  | 0, path => [path]
  | count + 1, path =>
    match path.parent? with
    | none => [path]
    | some parent => path :: surrounding count parent

def makeEach (disk : Disk) : List Path → Except FileFault Disk
  | [] => .error .notFound
  | path :: around =>
    if path.bytes.isEmpty then .ok disk
    else
      match disk.makeDirectory path with
      | .ok made => .ok made
      | .error .notFound => do
        let made ← disk.makeEach around
        match made.makeDirectory path with
        | .ok result => .ok result
        | .error fault => if made.isDirectory path then .ok made else .error fault
      | .error fault => if disk.isDirectory path then .ok disk else .error fault

def makeDirectories (disk : Disk) (path : Path) : Except FileFault Disk :=
  disk.makeEach (surrounding path.components.length path)

def writeHere (disk : Disk) (path : Path) (content : ByteArray) : Except FileFault Disk := do
  let (place, segments) ← disk.start path
  let (found, last, old) ← disk.lastStep place segments
  match old with
  | some (.directory _) => .error .isADirectory
  | _ =>
    if last = [Path.dot, Path.dot] || !Path.isNamed last then .error .isADirectory
    else .ok { disk with top := disk.top.put (last :: found).reverse (.file content) }

def write (disk : Disk) (path : Path) (content : ByteArray) : Except FileFault Disk := do
  match path.parent? with
  | some parent => (← disk.makeDirectories parent).writeHere path content
  | none => disk.writeHere path content

def namesOn (disk : Disk) (path : Path) : List (List UInt8) :=
  let start := if path.isAbsolute then [] else disk.here.reverse
  let step (place : List (List UInt8)) (segment : List UInt8) : List (List UInt8) :=
    if segment = [Path.dot, Path.dot] then place.tail
    else if Path.isNamed segment then segment :: place
    else place
  (path.segments.foldl step start).reverse

def filesUnder (disk : Disk) (names : List (List UInt8)) (path : Path) : List (Path × ByteArray) :=
  match disk.top.get? names with
  | some tree => tree.files path
  | none => []

/-- The files under a directory that an older state does not have as they are, in the byte order of
their paths. -/
def changesUnder (disk old : Disk) (names : List (List UInt8)) (path : Path) :
    List (Path × ByteArray) :=
  let before := old.filesUnder names path
  ((disk.filesUnder names path).filter fun file => before.lookup file.1 != some file.2).mergeSort
    fun a b => (Text.compareBytes a.1.bytes b.1.bytes).isLE

def changesSince (disk old : Disk) : List (Path × ByteArray) :=
  disk.changesUnder old disk.here ⟨[]⟩

end Disk
end PageTemplate
