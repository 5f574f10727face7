import Folio.Build
import Folio.CommandLine.Arguments
import Folio.Token.Json
import Folio.Tree.Json

/-! The commands of the program, and what they print. -/

namespace Folio.CommandLine

variable {m : Type → Type} [Monad m] [FileSystem m]

/-- What a run of the program leaves: its exit status and the texts it printed. -/
structure Run where
  exit : Nat := 0
  stdout : String := ""
  stderr : String := ""

/-- Lines, each with an end. -/
def lines (texts : List String) : String :=
  String.join (texts.map (· ++ "\n"))

/-- The exit status of a run with arguments that make no sense. -/
def usageStatus : Nat := 2

/-- The exit status of a run that broke off in the middle. -/
def brokenStatus : Nat := 101

/-- The run of a command that met an error. -/
def errorRun (stderr : String) : Error → Run
  | .time _ => { exit := brokenStatus, stderr := stderr }
  | e => { exit := 1, stderr := stderr ++ lines ["Error: " ++ e.message] }

/-- Compiles one document. -/
def runCompile (input output : Path) (options : Options) : m Run := do
  let result ← compileFile input options
  let warnings := lines (result.warnings.map ("warning: " ++ ·))
  if result.success then
    match ← (Site.write output result.output).run with
    | .error e => return errorRun warnings e
    | .ok paths =>
      return {
        stdout := lines ["Compilation successful!", "  HTML: " ++ paths.markup.text,
          "  CSS:  " ++ paths.style.text, "  JS:   " ++ paths.script.text,
          "  Time: " ++ result.elapsed.describe]
        stderr := warnings }
  else
    return { exit := 1, stderr := warnings ++ lines (result.errors.map ("error: " ++ ·)) }

/-- What a build prints about a document. -/
def fileLines (r : FileReport) : List String :=
  let status := if !r.success then "FAILED" else if r.cached then "cached" else "    ok"
  [status ++ "  " ++ r.source.text ++ " -> " ++ r.outDir.text] ++
    r.warnings.map ("        warning: " ++ ·) ++ r.errors.map ("        error: " ++ ·)

/-- What a build prints at its end. -/
def summary (r : Report) (elapsed : Duration) : String :=
  toString r.succeeded ++ " compiled, " ++ toString r.failed ++ " failed, " ++
    toString r.cached ++ " from cache in " ++ elapsed.describe

/-- The configuration of a build. Paths in the configuration file are looked up next to it, paths of
options in the working directory. -/
def buildConfig (configPath : Path) (src out : Option Path) (noCache : Bool) (jobs : Option Nat) :
    ExceptT Error m Config := do
  let root := (configPath.parent?.filter fun p => !p.text.isEmpty).getD ⟨"."⟩
  let config := (← Config.load configPath).relativeTo root
  return { config with
    srcDir := src.getD config.srcDir
    outDir := out.getD config.outDir
    cache := config.cache && !noCache
    jobs := jobs <|> config.jobs }

/-- Builds a project. -/
def runBuild (configPath : Path) (src out : Option Path) (noCache : Bool) (jobs : Option Nat) :
    m Run := do
  let build : ExceptT Error m Report := do
    buildProject (← buildConfig configPath src out noCache jobs)
  match ← build.run with
  | .error e => return errorRun "" e
  | .ok report =>
    let printed := lines (report.files.flatMap fileLines)
    match report.elapsed with
    | .error fault => return { errorRun "" (.time fault) with stdout := printed }
    | .ok elapsed =>
      return {
        exit := if 0 < report.failed then 1 else 0
        stdout := printed ++ lines [summary report elapsed] }

/-- Makes a new project in the working directory. -/
def runCreate (name : String) : m Run := do
  match ← (Scaffold.create ⟨"."⟩ name).run with
  | .error e => return errorRun "" e
  | .ok root =>
    return { stdout := lines ["Created " ++ root.text, "  cd " ++ name ++ " && emadocs build"] }

/-- Prints what a document is seen as. -/
def runShow (input : Path) (view : String → Json) : m Run := do
  match ← FileSystem.readText input with
  | .error fault => return errorRun "" (.read input fault)
  | .ok source => return { stdout := lines [(view source).pretty] }

/-- Carries out a command. -/
def runCommand : Command → m Run
  | .compile input output minify sourcemap =>
    runCompile input output { minify := minify, sourcemap := sourcemap }
  | .build config src out noCache jobs => runBuild config src out noCache jobs
  | .create name => runCreate name
  | .tokens input => runShow input fun source => .array ((Token.scan source).map Token.toJson)
  | .tree input => runShow input fun source => (Program.parseSource source).toJson

/-- The program with these arguments. -/
def run (args : List String) : m Run :=
  match request args with
  | .usageError => return { exit := usageStatus }
  | .version => return { stdout := lines ["emadocs 0.1.0"] }
  | .run command => runCommand command

end Folio.CommandLine
