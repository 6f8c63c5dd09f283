import PageTemplate.Text.Lossy

/-!
File paths. A path is its bytes, which need not be text; its components are what it leads through.
Repeated and final slashes and single dots do not count, except for a dot at the very beginning.
-/

namespace PageTemplate

structure Path where
  bytes : List UInt8
  deriving DecidableEq

namespace Path

def slash : UInt8 := 0x2F

def dot : UInt8 := 0x2E

def ofText (s : String) : Path := ⟨Text.bytes s⟩

def shown (path : Path) : String := Text.lossy path.bytes

inductive Component
  | root
  /-- A single dot that a path begins with. -/
  | current
  | parent
  | normal (name : List UInt8)
  deriving DecidableEq

def Component.name? : Component → Option (List UInt8)
  | .normal name => some name
  | _ => none

def Component.compare : Component → Component → Ordering
  | .normal a, .normal b => Text.compareBytes a b
  | a, b => Ord.compare a.ctorIdx b.ctorIdx

def segments (path : Path) : List (List UInt8) := path.bytes.splitOn slash

def ofSegments (segments : List (List UInt8)) : Path := ⟨[slash].intercalate segments⟩

def isNamed (segment : List UInt8) : Bool := segment ≠ [] ∧ segment ≠ [dot]

def lead (path : Path) : Option Component :=
  if path.segments.head? = some [] ∧ path.segments.tail ≠ [] then some .root
  else if path.segments.head? = some [dot] then some .current
  else none

def body (path : Path) : List (List UInt8) :=
  if path.lead = none then path.segments else path.segments.tail

def ofBody : Option Component → List (List UInt8) → Path
  | some .root, segments => ⟨slash :: [slash].intercalate segments⟩
  | some .current, [] => ⟨[dot]⟩
  | some .current, segments => ⟨dot :: slash :: [slash].intercalate segments⟩
  | _, segments => ofSegments segments

def component (segment : List UInt8) : Component :=
  if segment = [dot, dot] then .parent else .normal segment

def components (path : Path) : List Component :=
  path.lead.toList ++ (path.body.filter isNamed).map component

def compareComponents : List Component → List Component → Ordering
  | [], [] => .eq
  | [], _ :: _ => .lt
  | _ :: _, [] => .gt
  | a :: as, b :: bs => (a.compare b).then (compareComponents as bs)

def compare (a b : Path) : Ordering := compareComponents a.components b.components

def isAbsolute (path : Path) : Bool := path.lead = some .root

def dropTrailing (segments : List (List UInt8)) : List (List UInt8) :=
  (segments.reverse.dropWhile fun s => !isNamed s).reverse

def dropNamed : Nat → List (List UInt8) → List (List UInt8)
  | 0, segments => segments
  | _ + 1, [] => []
  | count + 1, s :: rest =>
    if isNamed s then dropNamed count rest else dropNamed (count + 1) rest

/-- The rest of a path that begins with the components of another, with nothing in front of its
first name or behind its last one. -/
def stripPrefix? (path base : Path) : Option Path :=
  if base.components = [] then some (ofBody path.lead (dropTrailing path.body))
  else if base.components.isPrefixOf path.components then
    let count := base.components.length - path.lead.toList.length
    some (ofSegments ((dropTrailing (dropNamed count path.body)).dropWhile fun s => !isNamed s))
  else none

/-- A relative path is read from the end of the first one; an absolute one replaces it. -/
def join (base path : Path) : Path :=
  if path.isAbsolute then path
  else if base.bytes.isEmpty || base.bytes.getLast? = some slash then ⟨base.bytes ++ path.bytes⟩
  else ⟨base.bytes ++ slash :: path.bytes⟩

def parent? (path : Path) : Option Path :=
  match path.components.getLast? with
  | none | some .root => none
  | some .current => some ⟨[]⟩
  | some _ => some (ofBody path.lead (dropTrailing (dropTrailing path.body).dropLast))

def fileName? (path : Path) : Option (List UInt8) := path.components.getLast?.bind Component.name?

/-- A name cut at its last dot. A dot in front of everything else does not count. -/
def splitExtension (name : List UInt8) : List UInt8 × Option (List UInt8) :=
  match (name.splitOn dot).reverse with
  | last :: first :: rest =>
    let stem := [dot].intercalate (first :: rest).reverse
    if stem = [] then (name, none) else (stem, some last)
  | _ => (name, none)

def stem? (path : Path) : Option (List UInt8) :=
  path.fileName?.map fun name => (splitExtension name).1

def extension? (path : Path) : Option (List UInt8) :=
  path.fileName?.bind fun name => (splitExtension name).2

/-- Put an extension in place of the one there is. The old one is cut off first, all but its dot;
where two dots remain of the whole name, the path ends in them. A path without a file name stays as
it is. -/
def withExtension (path : Path) (extension : List UInt8) : Path :=
  match path.fileName? with
  | none => path
  | some name =>
    let before := (dropTrailing path.body).dropLast
    let stem := (splitExtension name).1
    if stem = [dot] && path.body.getLast? = some name then
      ofBody path.lead (before ++ [[dot, dot]])
    else ofBody path.lead (before ++ [stem ++ dot :: extension])

def withFileName (path : Path) (name : List UInt8) : Path :=
  match path.fileName? with
  | some _ => (path.parent?.getD ⟨[]⟩).join ⟨name⟩
  | none => path.join ⟨name⟩

def names (path : Path) : List (List UInt8) := path.components.filterMap Component.name?

def slashed (path : Path) : String := "/".intercalate (path.names.map Text.lossy)

end Path
end PageTemplate
