import Folio.Disk
import Folio.Duration

/-! What building a project asks of the system it runs on. The same program runs on a file system that
is a value and on a real one. -/

namespace Folio

/-- File calls, and a clock that counts nanoseconds. -/
class FileSystem (m : Type → Type) where
  readBytes : Path → m (Except OsError (List UInt8))
  writeBytes : Path → List UInt8 → m (Except OsError Unit)
  makeDirs : Path → m (Except OsError Unit)
  removeFile : Path → m (Except OsError Unit)
  isPresent : Path → m Bool
  isDir : Path → m Bool
  /-- The files at or below a path, in any order, symbolic links followed. -/
  filesBelow : Path → m (List Path)
  now : m Nat

/-- Changes a disk where the call succeeds. -/
def Disk.attempt (call : Disk → Except OsError Disk) : StateM Disk (Except OsError Unit) := fun d =>
  match call d with
  | .ok d => (.ok (), d)
  | .error e => (.error e, d)

/-- A file system that is a value. Nothing takes time there. -/
instance : FileSystem (StateM Disk) where
  readBytes p := fun d => (d.readBytes p, d)
  writeBytes p bytes := Disk.attempt (·.writeBytes p bytes)
  makeDirs p := fun d => d.makeDirs p
  removeFile p := Disk.attempt (·.removeFile p)
  isPresent p := fun d => (d.isPresent p, d)
  isDir p := fun d => (d.isDir p, d)
  filesBelow p := fun d => (d.filesBelow p, d)
  now := pure 0

namespace FileSystem

variable {m : Type → Type} [Monad m] [FileSystem m]

/-- Why the text of a file could not be read. -/
inductive TextFault where
  | os (error : OsError)
  | notText (fault : Text.Utf8Fault)
  deriving DecidableEq, Repr

/-- The wording of a fault. -/
def TextFault.message : TextFault → String
  | os error => error.message
  | notText _ => "stream did not contain valid UTF-8"

/-- The text of a file. -/
def readText (p : Path) : m (Except TextFault String) := do
  match ← readBytes p with
  | .error e => return .error (.os e)
  | .ok bytes => return (Text.ofUtf8 bytes).mapError .notText

/-- The time since a moment. -/
def since (start : Nat) : m Duration := do return ⟨(← now) - start⟩

end FileSystem

end Folio
