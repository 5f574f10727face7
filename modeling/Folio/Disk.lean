import Folio.OsError
import Folio.Path
import Folio.SortedMap
import Folio.Text.Utf8

/-! A file system as a value: directories, files and symbolic links by their place below the root. -/

namespace Folio

/-- The names on the way from the root to an entry. -/
abbrev Place := List String

/-- What stands at a place. -/
inductive Entry where
  | dir
  | file (bytes : List UInt8)
  | link (target : String)
  deriving DecidableEq, Repr

/-- A file system. The root itself is always a directory. -/
structure Disk where
  entries : SortedMap Place Entry
  /-- The directory that relative paths start from. -/
  workDir : Place

namespace Disk

/-- A file system with nothing but an empty working directory. -/
def blank : Disk :=
  let workDir := ["work"]
  ⟨SortedMap.empty.insert workDir .dir, workDir⟩

/-- What stands at a place. -/
def get? (d : Disk) (place : Place) : Option Entry :=
  if place.isEmpty then some .dir else d.entries.get? place

/-- Puts an entry at a place. -/
def put (d : Disk) (place : Place) (entry : Entry) : Disk :=
  { d with entries := d.entries.insert place entry }

/-- Removes the entry at a place. -/
def erase (d : Disk) (place : Place) : Disk :=
  { d with entries := d.entries.erase place }

/-- Removes the entry at a place and all below it. -/
def eraseTree (d : Disk) (place : Place) : Disk :=
  { d with entries := d.entries.filter fun p _ => !place.isPrefixOf p }

/-- The names in a directory. -/
def names (d : Disk) (place : Place) : List String :=
  d.entries.entries.filterMap fun (p, _) =>
    if p.dropLast = place then p.getLast? else none

/-- The longest name of an entry, in bytes. -/
def maxName : Nat := 255

/-- The longest path that a file call takes, in bytes. -/
def maxPath : Nat := 4095

/-- How many symbolic links one path may lead through. -/
def maxLinks : Nat := 40

/-- The steps of a path: names, dots and double dots. A slash at the end counts as a dot, since only
a directory may stand before it. -/
def steps (text : String) : List String :=
  let pieces := (Path.split text.toList).filter fun piece => !piece.isEmpty
  let last := if text.toList.getLast? = some '/' then [['.']] else []
  (pieces ++ last).map String.ofList

/-- Where a path starts that is looked up at a place. -/
def startOf (place : Place) (text : String) : Place :=
  if text.toList.head? = some '/' then [] else place

/-- Follows steps from a place. The last step need not lead to an entry. A symbolic link is left to
`jump`, with the place that its target starts from and all steps from there; in the last step only if
`followLast` is true. -/
def followWith (d : Disk) (followLast : Bool) (jump : Place → List String → Except OsError Place)
    (place : Place) : List String → Except OsError Place
  | [] => .ok place
  | step :: rest =>
    if d.get? place ≠ some .dir then .error .notDirectory
    else if step = "." then d.followWith followLast jump place rest
    else if step = ".." then d.followWith followLast jump place.dropLast rest
    else if maxName < step.utf8ByteSize then .error .nameTooLong
    else
      let next := place ++ [step]
      match d.get? next with
      | none => if rest.isEmpty then .ok next else .error .notFound
      | some (.link target) =>
        if rest.isEmpty && !followLast then .ok next
        else jump (startOf place target) (steps target ++ rest)
      | some _ => d.followWith followLast jump next rest

/-- Follows steps from a place through at most `links` symbolic links. -/
def follow (d : Disk) (links : Nat) (followLast : Bool) : Place → List String → Except OsError Place :=
  match links with
  | 0 => d.followWith followLast fun _ _ => .error .tooManyLinks
  | links + 1 => d.followWith followLast (d.follow links followLast)

/-- The place that a path leads to. -/
def locate (d : Disk) (followLast : Bool) (p : Path) : Except OsError Place :=
  if '\x00' ∈ p.text.toList then .error .zeroInPath
  else if p.text.isEmpty then .error .notFound
  else if maxPath < p.text.utf8ByteSize then .error .nameTooLong
  else d.follow maxLinks followLast (startOf d.workDir p.text) (steps p.text)

/-- The entry that a path leads to. -/
def entryAt (d : Disk) (followLast : Bool) (p : Path) : Except OsError (Place × Entry) := do
  let place ← d.locate followLast p
  match d.get? place with
  | some entry => return (place, entry)
  | none => throw .notFound

/-- Whether a path leads to an entry. -/
def isPresent (d : Disk) (p : Path) : Bool := (d.entryAt true p).toOption.isSome

/-- Whether a path leads to a directory. -/
def isDir (d : Disk) (p : Path) : Bool :=
  match d.entryAt true p with
  | .ok (_, .dir) => true
  | _ => false

/-- Whether a path leads to a file. -/
def isFile (d : Disk) (p : Path) : Bool :=
  match d.entryAt true p with
  | .ok (_, .file _) => true
  | _ => false

/-- The content of a file. -/
def readBytes (d : Disk) (p : Path) : Except OsError (List UInt8) := do
  match ← d.entryAt true p with
  | (_, .file bytes) => return bytes
  | _ => throw .isDirectory

/-- A path without slashes at its end. -/
def unslashed (p : Path) : Path :=
  ⟨String.ofList (p.text.toList.reverse.dropWhile (· = '/')).reverse⟩

/-- Writes a file, instead of what was in it before. A path with a slash at its end is that of a
directory, whatever stands there. -/
def writeBytes (d : Disk) (p : Path) (bytes : List UInt8) : Except OsError Disk := do
  let isSlashed : Bool := p ≠ unslashed p
  let place ← d.locate (!isSlashed) (if (unslashed p).text.isEmpty then p else unslashed p)
  if isSlashed || d.get? place = some .dir then throw .isDirectory
  return d.put place (.file bytes)

/-- The place where a new entry would come to stand. -/
def vacancy (d : Disk) (p : Path) : Except OsError Place := do
  let place ← d.locate false (if (unslashed p).text.isEmpty then p else unslashed p)
  if (d.get? place).isSome then throw .alreadyExists
  return place

/-- Makes one directory. -/
def makeDir (d : Disk) (p : Path) : Except OsError Disk := do
  return d.put (← d.vacancy p) .dir

/-- Makes a symbolic link. A path with a slash at its end would be that of a directory. -/
def makeLink (d : Disk) (p : Path) (target : String) : Except OsError Disk := do
  if target.isEmpty then throw .notFound
  let place ← d.vacancy p
  if p ≠ unslashed p then throw .notFound
  return d.put place (.link target)

/-- Makes the first of the directories, after those further on in the list that it needs. -/
def makeFirst (d : Disk) : List Path → Except OsError Unit × Disk
  | [] => (.ok (), d)
  | p :: above =>
    match d.makeDir p with
    | .ok d => (.ok (), d)
    | .error .notFound =>
      match d.makeFirst above with
      | (.error e, d) => (.error e, d)
      | (.ok (), d) =>
        match d.makeDir p with
        | .ok d => (.ok (), d)
        | .error e => if d.isDir p then (.ok (), d) else (.error e, d)
    | .error e => if d.isDir p then (.ok (), d) else (.error e, d)

/-- Makes a directory and all directories above it that are missing. -/
def makeDirs (d : Disk) (p : Path) : Except OsError Unit × Disk :=
  d.makeFirst p.ancestors

/-- Removes a file or a link. -/
def removeFile (d : Disk) (p : Path) : Except OsError Disk := do
  match ← d.entryAt false p with
  | (_, .dir) => throw .isDirectory
  | (place, _) => return d.erase place

/-- Removes whatever a path leads to, with all that is in it. -/
def removeAll (d : Disk) (p : Path) : Except OsError Disk := do
  match ← d.entryAt false p with
  | (place, .dir) => return d.eraseTree place
  | (place, _) => return d.erase place

/-- The files below a directory, symbolic links followed. `above` are the directories on the way; a
link back to one of them is not followed. At most `fuel` directories are entered on one way. -/
def filesFrom (d : Disk) : Nat → List Place → Place → Path → List Path
  | 0, _, _, _ => []
  | fuel + 1, above, place, p =>
    (d.names place).flatMap fun name =>
      let next := place ++ [name]
      let path := p.child name
      match d.get? next with
      | some (.file _) => [path]
      | some .dir => d.filesFrom fuel (next :: above) next path
      | some (.link _) =>
        match d.entryAt true path with
        | .ok (_, .file _) => [path]
        | .ok (target, .dir) =>
          if target ∈ above then [] else d.filesFrom fuel (target :: above) target path
        | _ => []
      | none => []

/-- The files at or below a path, without those whose own path has become too long. A way down enters
each directory through a link at most once, so it is no longer than the square of the number of
entries. -/
def filesBelow (d : Disk) (p : Path) : List Path :=
  match d.entryAt true p with
  | .ok (_, .file _) => [p]
  | .ok (place, .dir) =>
    let size := d.entries.entries.length + 1
    (d.filesFrom (size * size) [place] place p).filter d.isFile
  | _ => []

/-- All entries below a directory with their paths below it. -/
def listing (d : Disk) (p : Path) : Except OsError (List (String × Entry)) := do
  match ← d.entryAt true p with
  | (place, .dir) =>
    return d.entries.entries.filterMap fun (q, entry) =>
      if place.isPrefixOf q && q ≠ place then
        some ("/".intercalate (q.drop place.length), entry)
      else none
  | _ => throw .notDirectory

end Disk

end Folio
