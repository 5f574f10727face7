import Folio.CommandLine

/-! The program on a real file system. -/

namespace Folio.Real

/-- A failure with the number that the system gave it, or with that number negated. -/
def numberedError (code : UInt32) (wording : String) : OsError :=
  match min code.toNat (-code).toNat with
  | 2 => .notFound
  | 17 => .alreadyExists
  | 20 => .notDirectory
  | 21 => .isDirectory
  | 36 => .nameTooLong
  | 40 => .tooManyLinks
  | n => .other n wording

/-- A failure as the library names it. -/
def osError : IO.Error → OsError
  | .alreadyExists _ code wording | .invalidArgument _ code wording
  | .permissionDenied _ code wording | .resourceExhausted _ code wording
  | .inappropriateType _ code wording | .noSuchThing _ code wording => numberedError code wording
  | .noFileOrDirectory _ code wording | .interrupted _ code wording => numberedError code wording
  | .otherError code wording | .resourceBusy code wording | .resourceVanished code wording
  | .unsupportedOperation code wording | .hardwareFault code wording
  | .unsatisfiedConstraints code wording | .illegalOperation code wording
  | .protocolError code wording | .timeExpired code wording => numberedError code wording
  | .unexpectedEof => .other 0 "unexpected end of file"
  | .userError wording => .other 0 wording

/-- A file call with its failure as a value. -/
def attempt {α : Type} (call : IO α) : IO (Except OsError α) :=
  try return .ok (← call) catch e => return .error (osError e)

/-- The answer of a file call, or a default where it fails. -/
def orDefault {α : Type} (default : α) (call : IO α) : IO α :=
  try call catch _ => return default

/-- Whether a path leads to a directory. -/
def isDir (p : Path) : IO Bool :=
  orDefault false do return (← (← IO.FS.realPath p.text).isDir)

/-- Makes the first of the directories, after those further on in the list that it needs. -/
def makeFirst : List Path → IO (Except OsError Unit)
  | [] => return .ok ()
  | p :: above => do
    let make : IO (Except OsError Unit) := do
      match ← attempt (IO.FS.createDir p.text) with
      | .ok () => return .ok ()
      | .error e => return if ← isDir p then .ok () else .error e
    match ← make with
    | .error .notFound =>
      match ← makeFirst above with
      | .ok () => make
      | .error e => return .error e
    | answer => return answer

/-- The files at or below a path. `above` are the directories on the way, and `expected` is where the
path leads if its last step is no link; a link back to a directory on the way is not followed. -/
partial def filesFrom (above : List Path) (expected : Option Path) (p : Path) : IO (List Path) :=
  orDefault [] do
    let real ← IO.FS.realPath p.text
    let place : Path := ⟨real.toString⟩
    if !(← real.isDir) then return [p]
    if some place ≠ expected && place ∈ above then return []
    let mut found := []
    for entry in ← real.readDir do
      let name := entry.fileName
      found := found ++ (← filesFrom (place :: above) (place.child name) (p.child name))
    return found

end Folio.Real

open Folio Folio.Real

/-- The file system that the program runs on. -/
instance : FileSystem IO where
  readBytes p := attempt do return (← IO.FS.readBinFile p.text).toList
  writeBytes p bytes := attempt (IO.FS.writeBinFile p.text ⟨bytes.toArray⟩)
  makeDirs p := makeFirst p.ancestors
  removeFile p := attempt (IO.FS.removeFile p.text)
  isPresent p := orDefault false do return (← (← IO.FS.realPath p.text).pathExists)
  isDir := Real.isDir
  filesBelow := filesFrom [] none
  now := do return (← IO.monoNanosNow)

/-- Carries out the command that the arguments ask for. -/
def main (args : List String) : IO UInt32 := do
  let run ← (CommandLine.run args : IO CommandLine.Run)
  IO.print run.stdout
  IO.eprint run.stderr
  if run.exit = CommandLine.usageStatus then
    IO.eprintln "usage: emadocs compile | build | init | tokens | ast"
  return run.exit.toUInt32
