import Folio.Duration
import Folio.Json.Decode
import Folio.Path

/-! What is told about a build. -/

namespace Folio

/-- What became of a document of a project. -/
structure FileReport where
  source : Path
  outDir : Path
  success : Bool := false
  cached : Bool := false
  errors : List String := []
  warnings : List String := []
  deriving DecidableEq, Repr

/-- What became of a project. -/
structure Report where
  files : List FileReport
  elapsedMs : Float

namespace Report

/-- How many documents were built. -/
def succeeded (r : Report) : Nat := (r.files.filter (·.success)).length

/-- How many documents were not built. -/
def failed (r : Report) : Nat := r.files.length - r.succeeded

/-- How many results were kept from an earlier build. -/
def cached (r : Report) : Nat := (r.files.filter (·.cached)).length

/-- How long the build took. -/
def elapsed (r : Report) : Except Duration.Fault Duration := Duration.ofMillis r.elapsedMs

end Report

open Json

/-- The report of a document as JSON. -/
def FileReport.toJson (r : FileReport) : Json :=
  .object [("source", .string r.source.text), ("outDir", .string r.outDir.text),
    ("success", .bool r.success), ("cached", .bool r.cached), ("errors", .strings r.errors),
    ("warnings", .strings r.warnings)]

/-- The report of a document that a JSON value encodes. -/
def FileReport.ofJson? (j : Json) : Option FileReport := do
  let member ← j.record? ["source", "outDir", "success", "cached", "errors", "warnings"] 6
  return {
    source := ⟨← (← member "source").string?⟩
    outDir := ⟨← (← member "outDir").string?⟩
    success := ← (← member "success").bool?
    cached := ← (← member "cached").bool?
    errors := ← (← member "errors").strings?
    warnings := ← (← member "warnings").strings? }

/-- The report of a project that a JSON value encodes. -/
def Report.ofJson? (j : Json) : Option Report := do
  let member ← j.record? ["files", "elapsedMs"] 2
  return {
    files := ← (← (← member "files").items?).mapM FileReport.ofJson?
    elapsedMs := ← (← member "elapsedMs").double? }

end Folio
