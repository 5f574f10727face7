import Folio.Path
import Folio.Scaffold

/-! Arguments of the command line. Options may stand before and after the other arguments, with their
value after a blank or an equals sign; two hyphens end the options. -/

namespace Folio.CommandLine

/-- An option that a command knows. -/
structure Switch where
  long : String
  short : Option Char := none
  takesValue : Bool := true

/-- What the arguments of a command hold: the options with their values, and the other arguments. -/
structure Given where
  options : List (String × String) := []
  others : List String := []

/-- The value of an option. -/
def Given.option? (g : Given) (name : String) : Option String := g.options.lookup name

/-- Whether an option was given. -/
def Given.has (g : Given) (name : String) : Bool := (g.option? name).isSome

/-- Whether an argument is an option rather than a value. A lone hyphen is a value. -/
def looksLikeOption (arg : String) : Bool :=
  arg.toList.head? = some '-' && arg ≠ "-"

/-- Adds an option, which may be given only once. -/
def Given.add? (g : Given) (switch : Switch) (value : String) : Option Given :=
  if g.has switch.long then none
  else some { g with options := (switch.long, value) :: g.options }

/-- An option as it is written: its switch, and the value attached to it. -/
def switch? (switches : List Switch) (arg : String) : Option (Switch × Option String) :=
  match arg.toList with
  | '-' :: '-' :: name =>
    let key := name.takeWhile (· ≠ '=')
    let value := (name.dropWhile (· ≠ '=')).tail?.map String.ofList
    (switches.find? (·.long == String.ofList key)).map (·, value)
  | '-' :: short :: attached =>
    let value :=
      match attached with
      | [] => none
      | '=' :: rest => some (String.ofList rest)
      | rest => some (String.ofList rest)
    (switches.find? (·.short == some short)).map (·, value)
  | _ => none

/-- Takes one option off the arguments, with its value if it has one. -/
def takeOption? (switches : List Switch) (g : Given) (arg : String) (rest : List String) :
    Option (Given × List String) := do
  let (switch, attached) ← switch? switches arg
  if switch.takesValue then
    match attached, rest with
    | some value, _ => return (← g.add? switch value, rest)
    | none, value :: rest =>
      if looksLikeOption value then none else return (← g.add? switch value, rest)
    | none, [] => none
  else if attached.isSome then none
  else return (← g.add? switch "", rest)

/-- The options and the other arguments of a command. -/
def givenFrom (switches : List Switch) : Nat → Given → List String → Option Given
  | 0, g, _ => some g
  | _ + 1, g, [] => some g
  | fuel + 1, g, arg :: rest =>
    if arg = "--" then some { g with others := g.others ++ rest }
    else if looksLikeOption arg then do
      let (g, rest) ← takeOption? switches g arg rest
      givenFrom switches fuel g rest
    else givenFrom switches fuel { g with others := g.others ++ [arg] } rest

/-- The options and the other arguments of a command, if they are well-formed. -/
def given? (switches : List Switch) (args : List String) : Option Given :=
  givenFrom switches args.length {} args

/-- What is to be done. -/
inductive Command where
  | compile (input output : Path) (minify sourcemap : Bool)
  | build (config : Path) (src out : Option Path) (noCache : Bool) (jobs : Option Nat)
  | create (name : String)
  | tokens (input : Path)
  | tree (input : Path)

/-- What the arguments ask for. -/
inductive Request where
  | usageError
  | version
  | run (command : Command)

/-- Options that every command knows, for the log. -/
def logSwitches : List Switch := [{ long := "log-level" }, { long := "log-format" }]

/-- Whether the options for the log have values that are known. -/
def logOptionsValid (g : Given) : Bool :=
  ((g.option? "log-level").all (· ∈ ["off", "error", "warn", "info", "debug", "trace"])) &&
    ((g.option? "log-format").all (· ∈ ["pretty", "compact", "json"]))

/-- A path, which may not be empty. -/
def path? (text : String) : Option Path := if text.isEmpty then none else some ⟨text⟩

/-- A whole number of 64 bits, with or without a plus sign. -/
def count? (text : String) : Option Nat :=
  let digits := if text.toList.head? = some '+' then text.toList.tail else text.toList
  if digits.isEmpty || !digits.all Char.isDigit then none
  else
    let n := digits.foldl (fun n c => n * 10 + (c.toNat - 48)) 0
    if n < UInt64.size then some n else none

/-- The value of an option, decoded if it is there. -/
def decoded? {α : Type} (decode : String → Option α) : Option String → Option (Option α)
  | none => some none
  | some text => (decode text).map some

/-- The only argument that is no option. -/
def single? (g : Given) : Option String :=
  match g.others with
  | [arg] => some arg
  | _ => none

/-- The command with this name and these arguments. -/
def command? (name : String) (args : List String) : Option Command := do
  let read (switches : List Switch) : Option Given := do
    let g ← given? (switches ++ logSwitches) args
    if logOptionsValid g then some g else none
  match name with
  | "compile" =>
    let g ← read [{ long := "output", short := some 'o' },
      { long := "minify", takesValue := false }, { long := "sourcemap", takesValue := false }]
    let output ← path? ((g.option? "output").getD "dist")
    return .compile (← path? (← single? g)) output (g.has "minify") (g.has "sourcemap")
  | "build" =>
    let g ← read [{ long := "config", short := some 'c' }, { long := "src" }, { long := "out" },
      { long := "no-cache", takesValue := false }, { long := "jobs", short := some 'j' }]
    if !g.others.isEmpty then none
    return .build (← path? ((g.option? "config").getD Scaffold.configFile))
      (← decoded? path? (g.option? "src")) (← decoded? path? (g.option? "out"))
      (g.has "no-cache") (← decoded? count? (g.option? "jobs"))
  | "init" => return .create (← single? (← read []))
  | "tokens" => return .tokens (← path? (← single? (← read [])))
  | "ast" => return .tree (← path? (← single? (← read [])))
  | _ => none

/-- What the arguments ask for. In front of the command stand only options for the log, or one that
asks for the version. -/
def requestFrom : Nat → Given → List String → Request
  | 0, _, _ => .usageError
  | _ + 1, _, [] => .usageError
  | fuel + 1, g, arg :: rest =>
    if arg = "--version" || arg.toList.take 2 = ['-', 'V'] then .version
    else if looksLikeOption arg then
      match takeOption? logSwitches g arg rest with
      | some (g, rest) => if logOptionsValid g then requestFrom fuel g rest else .usageError
      | none => .usageError
    else
      match command? arg rest with
      | some command => .run command
      | none => .usageError

/-- What the arguments ask for. -/
def request (args : List String) : Request := requestFrom (args.length + 1) {} args

end Folio.CommandLine
