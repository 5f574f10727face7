import Folio.Error
import Folio.Result

/-! The generated files of a document. -/

namespace Folio.Site

variable {m : Type → Type} [Monad m] [FileSystem m]

/-- Where the three texts of a document are. -/
structure Paths where
  markup : Path
  style : Path
  script : Path
  deriving DecidableEq, Repr

/-- The files in a directory. -/
def Paths.inside (dir : Path) : Paths :=
  ⟨dir.child "index.html", dir.child "styles.css", dir.child "script.js"⟩

/-- Makes a directory and those above it. -/
def makeDirs (dir : Path) : ExceptT Error m Unit :=
  FileSystem.orElse (FileSystem.makeDirs dir) (.write dir)

/-- Writes a text to a file. -/
def writeText (path : Path) (text : String) : ExceptT Error m Unit :=
  FileSystem.orElse (FileSystem.writeBytes path (Text.utf8 text)) (.write path)

/-- Writes the three texts of a document into a directory, which is made if it is missing. -/
def writeOutputs (dir : Path) (output : Output) : ExceptT Error m Paths := do
  makeDirs dir
  let paths := Paths.inside dir
  writeText paths.markup output.markup
  writeText paths.style output.style
  writeText paths.script output.script
  return paths

/-- Makes the directories that every page refers to. -/
def prepareAssets (outDir : Path) : ExceptT Error m Unit := do
  makeDirs (outDir.child "css")
  makeDirs (outDir.child "js")

/-- Writes one document as a site of its own. -/
def write (outDir : Path) (output : Output) : ExceptT Error m Paths := do
  prepareAssets outDir
  writeOutputs outDir output

end Folio.Site
