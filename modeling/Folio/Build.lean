import Folio.Cache
import Folio.Config
import Folio.OutputDir
import Folio.Report
import Folio.Site

/-! Building a project: every document below the source directory is compiled on its own, and what
goes wrong with one does not touch the others. -/

namespace Folio

variable {m : Type → Type} [Monad m] [FileSystem m]

/-- Compiles the document in a file. -/
def compileFile (path : Path) (options : Options) : m Result := do
  let start ← FileSystem.now
  match ← FileSystem.readBytes path with
  | .error e =>
    return .failure ("failed to read " ++ path.text ++ ": " ++ e.message) (← FileSystem.since start)
  | .ok bytes =>
    match Text.ofUtf8 bytes with
    | .error fault =>
      return .failure (path.text ++ " is not valid UTF-8: " ++ fault.message)
        (← FileSystem.since start)
    | .ok source =>
      let result := compile source options
      return { result with elapsed := ← FileSystem.since start }

/-- Reads the configuration in a file. Without the file there are the defaults. -/
def Config.load (path : Path) : ExceptT Error m Config := do
  match ← (FileSystem.readText path : m _) with
  | .error (.os .notFound) => return {}
  | .error fault => throw (.read path fault)
  | .ok text =>
    match Config.read text with
    | .ok config => return config
    | .error fault => throw (.config path fault)

/-- Whether a file is a document, by its name. -/
def isDocument (file : Path) : Bool := file.extension? = some documentExtension

/-- The documents among some files, in the order of their paths. -/
def documentsAmong (files : List Path) : List Path :=
  (files.filter isDocument).mergeSort Path.le

/-- The documents at or below a path, in order. -/
def findDocuments (dir : Path) : m (List Path) := do
  return documentsAmong (← FileSystem.filesBelow dir)

/-- What a build does with a document: it is built into a directory of its own, or it is left out
because another document has that directory. -/
inductive Target where
  | build (file outDir : Path)
  | conflict (file outDir owner : Path)
  deriving DecidableEq, Repr

/-- Gives each document its directory. `owners` are the directories that have an owner already. -/
def assignFrom (config : Config) (owners : List (Path × Path)) : List Path → List Target
  | [] => []
  | file :: files =>
    let dir := outputDir config.srcDir config.outDir file
    match owners.find? fun owner => owner.1.same dir with
    | some (_, owner) => .conflict file dir owner :: assignFrom config owners files
    | none => .build file dir :: assignFrom config ((dir, file) :: owners) files

/-- Gives each document its directory. The first document that wants a directory owns it. -/
def assign (config : Config) (files : List Path) : List Target := assignFrom config [] files

/-- The report of a document whose directory another document has. -/
def conflictReport (file outDir owner : Path) : FileReport :=
  { source := file
    outDir := outDir
    errors := ["output directory " ++ outDir.text ++ " is already used by " ++ owner.text] }

/-- The name under which the result of a document is kept: its path below the sources. -/
def cacheKey (config : Config) (file : Path) : String :=
  ((file.relativeTo? config.srcDir).getD file).text

/-- The result of a document: the kept one if there is one, or else a new one, which is kept. The
truth value tells which. -/
def resultFor (config : Config) (cache : Option Cache) (key source : String) :
    m (Except Duration.Fault (Result × Bool)) := do
  match cache with
  | none => return .ok (compile source config.compiler, false)
  | some cache =>
    match ← cache.lookup key source config.compiler with
    | .error fault => return .error fault
    | .ok (some result) => return .ok (result, true)
    | .ok none =>
      let start ← FileSystem.now
      let result := { compile source config.compiler with elapsed := ← FileSystem.since start }
      cache.store key source config.compiler result
      return .ok (result, false)

/-- Builds a document into its directory. -/
def buildFile (config : Config) (cache : Option Cache) (file outDir : Path) :
    m (Except Duration.Fault FileReport) := do
  let report : FileReport := { source := file, outDir := outDir }
  match ← FileSystem.readText file with
  | .error fault => return .ok { report with errors := [(Error.read file fault).message] }
  | .ok source =>
    match ← resultFor config cache (cacheKey config file) source with
    | .error fault => return .error fault
    | .ok (result, cached) =>
      let report := { report with
        success := result.success
        cached := cached
        errors := result.errors
        warnings := result.warnings }
      if result.success then
        match ← (Site.writeOutputs outDir result.output).run with
        | .ok _ => return .ok report
        | .error e =>
          return .ok { report with success := false, errors := report.errors ++ [e.message] }
      else return .ok report

/-- Builds a document, or reports why it is left out. -/
def buildTarget (config : Config) (cache : Option Cache) :
    Target → m (Except Duration.Fault FileReport)
  | .build file outDir => buildFile config cache file outDir
  | .conflict file outDir owner => return .ok (conflictReport file outDir owner)

/-- Builds the documents one after the other. All of them are built, even if one breaks off. -/
def buildTargets (config : Config) (cache : Option Cache) :
    List Target → m (Except Duration.Fault (List FileReport))
  | [] => return .ok []
  | target :: targets => do
    let first ← buildTarget config cache target
    let rest ← buildTargets config cache targets
    return do return (← first) :: (← rest)

/-- Builds a project. -/
def buildProject (config : Config) : ExceptT Error m Report := do
  let start ← (FileSystem.now : m _)
  if !(← (FileSystem.isDir config.srcDir : m _)) then throw (.missingSourceDir config.srcDir)
  let files ← (findDocuments config.srcDir : m _)
  Site.prepareAssets config.outDir
  let cache ← if config.cache then some <$> (Cache.create config.outDir : m _) else pure none
  match ← (buildTargets config cache (assign config files) : m _) with
  | .error fault => throw (.time fault)
  | .ok reports =>
    return { files := reports, elapsedMs := (← (FileSystem.since start : m _)).toMillis }

end Folio
