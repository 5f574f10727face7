import Folio.Options
import Folio.Output
import Folio.Tree.Parse
import Folio.Tree.Walk

/-! Results of compiling a document. Every text compiles: what makes no sense is passed over, and what
was asked for in vain is told in a warning. -/

namespace Folio

/-- What became of a document. -/
structure Result where
  success : Bool
  output : Output
  errors : List String
  warnings : List String
  elapsed : Duration := ⟨0⟩
  deriving DecidableEq, Repr

namespace Result

open Json

/-- The result of a compilation that could not even begin. -/
def failure (message : String) (elapsed : Duration) : Result :=
  { success := false, output := {}, errors := [message], warnings := [], elapsed := elapsed }

/-- The members of a result apart from the time it took. -/
def members (r : Result) : List (String × Json) :=
  [("success", .bool r.success), ("markup", .string r.output.markup),
    ("style", .string r.output.style), ("script", .string r.output.script),
    ("errors", .strings r.errors), ("warnings", .strings r.warnings)]

/-- A result as JSON. -/
def toJson (r : Result) : Json :=
  .object (r.members ++ [("elapsedMs", .number (.real r.elapsed.toMillis))])

/-- Why a JSON value encodes no result. -/
inductive Refusal where
  /-- A member is missing or of another sort. -/
  | shape
  /-- The time cannot be held. -/
  | time (fault : Duration.Fault)

/-- The time under `elapsedMs`. A negative one counts as no time. -/
def elapsedOf (member : String → Option Json) : Except Refusal Duration :=
  match (member "elapsedMs").bind double? with
  | none => .error .shape
  | some ms => (Duration.ofMillisClamped ms).mapError .time

/-- The result with these members, but for the time. -/
def ofMembers? (member : String → Option Json) : Option Result := do
  return {
    success := ← (← member "success").bool?
    output := {
      markup := ← (← member "markup").string?
      style := ← (← member "style").string?
      script := ← (← member "script").string? }
    errors := ← (← member "errors").strings?
    warnings := ← (← member "warnings").strings? }

/-- The result that a JSON value encodes. The time of an object is looked at first, the time of an
array after all else but items that are too many. -/
def ofJson (j : Json) : Except Refusal Result :=
  let names := ["success", "markup", "style", "script", "errors", "warnings", "elapsedMs"]
  let (known, surplus) :=
    match j with
    | .array items => (Json.array (items.take names.length), items.drop names.length)
    | _ => (j, [])
  match known.record? names names.length with
  | none => .error .shape
  | some member =>
    match known, elapsedOf member, ofMembers? member with
    | .array _, _, none => .error .shape
    | _, .error refusal, _ => .error refusal
    | _, .ok _, none => .error .shape
    | _, .ok elapsed, some r =>
      if surplus.isEmpty then .ok { r with elapsed := elapsed } else .error .shape

/-- Reads a result in a JSON text. -/
def reader : Reader Result :=
  let text := Reader.text "a string"
  let texts := Reader.list text
  Reader.fullRecord "struct CompileResult"
    [⟨"success", do let b ← Reader.bool; return fun r => { r with success := b }⟩,
      ⟨"markup", do let t ← text; return fun r => { r with output.markup := t }⟩,
      ⟨"style", do let t ← text; return fun r => { r with output.style := t }⟩,
      ⟨"script", do let t ← text; return fun r => { r with output.script := t }⟩,
      ⟨"errors", do let ts ← texts; return fun r => { r with errors := ts }⟩,
      ⟨"warnings", do let ts ← texts; return fun r => { r with warnings := ts }⟩,
      ⟨"elapsedMs", do
        let n ← Reader.anyNumber "f64"
        match Duration.ofMillisClamped (((Json.number n).double?).getD 0.0) with
        | .ok d => return fun r => { r with elapsed := d }
        | .error fault => Reader.fail (.badTime fault)⟩]
    { success := false, output := {}, errors := [], warnings := [] }

end Result

/-- What is told about options that have no effect, and about pages that share one document. -/
def warningsFor (stats : Stats) (options : Options) : List String :=
  let pages := stats.count Block.page.spelling
  (if options.minify then ["minification is not supported; output is not minified"] else []) ++
  (if options.sourcemap then ["source maps are not supported; no map was generated"] else []) ++
  (if 1 < pages then
    [toString pages ++ " page blocks found; their markup documents are concatenated"] else [])

/-- Compiles a document. -/
def compile (source : String) (options : Options) : Result :=
  let parsed := Parse.statements maxDepth (Program.significant (Token.scan source))
  let program : Program := ⟨parsed.statements⟩
  let skipped :=
    if parsed.depthLimited then
      ["blocks nested deeper than " ++ toString maxDepth ++ " levels were skipped"] else []
  { success := true
    output := program.emit
    errors := []
    warnings := warningsFor program.stats options ++ skipped }

end Folio
