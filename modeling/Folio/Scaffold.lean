import Folio.Config
import Folio.Site

/-! New projects. -/

namespace Folio.Scaffold

variable {m : Type → Type} [Monad m] [FileSystem m]

/-- The name of a project's configuration file. -/
def configFile : String := "emadocs.json"

/-- A project is named with ASCII letters, digits, hyphens and underscores, and starts with no
hyphen. -/
def isValidName (name : String) : Bool :=
  !name.isEmpty && name.toList.head? ≠ some '-' &&
    name.toList.all fun c => c.isAlphanum || c = '-' || c = '_'

/-- The first document of a project. -/
def starterPage (name : String) : String :=
  "page Home title=\"" ++ name ++ "\" \x7b\n  layout Main \x7b \x7d\n\x7d\n\n" ++
  "component Welcome \x7b \x7d\n\nstyle home \x7b \x7d\n"

/-- What a reader of a project is told first. -/
def readme (name : String) : String :=
  "# " ++ name ++ "\n\nBuilt with Emadocs.\n\n```sh\nemadocs build\n```\n\n" ++
  "Sources live in `src/`; compiled pages are written to `dist/`.\n"

/-- Makes a new project in a directory, and gives the directory of the project. -/
def create (parent : Path) (name : String) : ExceptT Error m Path := do
  if !isValidName name then throw (.invalidProjectName name)
  let root := parent.child name
  if ← (FileSystem.isPresent root : m _) then throw (.projectExists root)
  let config : Config := {}
  Site.makeDirs (root.join config.srcDir)
  Site.makeDirs (root.join config.outDir)
  Site.writeText (root.child configFile) (config.toJson.pretty ++ "\n")
  Site.writeText ((root.join config.srcDir).child "index.ema") (starterPage name)
  Site.writeText (root.child "README.md") (readme name)
  return root

end Folio.Scaffold
