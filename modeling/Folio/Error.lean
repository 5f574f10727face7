import Folio.FileSystem
import Folio.Json.Cursor

/-! What can go wrong with a project. -/

namespace Folio

/-- Why a project could not be made, read or built. -/
inductive Error where
  | read (path : Path) (fault : FileSystem.TextFault)
  | write (path : Path) (error : OsError)
  | config (path : Path) (fault : Json.Fault)
  | missingSourceDir (path : Path)
  | projectExists (path : Path)
  | invalidProjectName (name : String)
  /-- A stored result tells a time that no duration can hold. -/
  | time (fault : Duration.Fault)

/-- The wording of an error. -/
def Error.message : Error → String
  | read path fault => "failed to read " ++ path.text ++ ": " ++ fault.message
  | write path error => "failed to write " ++ path.text ++ ": " ++ error.message
  | config path fault => "invalid config file " ++ path.text ++ ": " ++ fault.message
  | missingSourceDir path => "source directory not found: " ++ path.text
  | projectExists path => "project directory already exists: " ++ path.text
  | invalidProjectName name =>
    "invalid project name " ++ Text.quoted name ++ ": use letters, digits, '-' or '_'"
  | time fault => fault.message

/-- Breaks off with an error where a file call fails. -/
def FileSystem.orElse {m : Type → Type} [Monad m] {α : Type} (call : m (Except OsError α))
    (error : OsError → Error) : ExceptT Error m α :=
  ExceptT.mk (do return (← call).mapError error)

end Folio
