import Folio.Json.Decode
import Folio.Json.Record

/-! Options of a compilation. -/

namespace Folio

/-- What a compilation is asked for. Minified output and source maps are accepted and not made. -/
structure Options where
  minify : Bool := false
  sourcemap : Bool := false
  treeshaking : Bool := true
  deriving DecidableEq, Repr

namespace Options

open Json

/-- Options as JSON. -/
def toJson (o : Options) : Json :=
  .object [("minify", .bool o.minify), ("sourcemap", .bool o.sourcemap),
    ("treeshaking", .bool o.treeshaking)]

/-- The options that a JSON value encodes. What is missing keeps its default. -/
def ofJson? (j : Json) : Option Options := do
  let member ← j.record? ["minify", "sourcemap", "treeshaking"] 0
  let default : Options := {}
  return {
    minify := ← withDefault? default.minify bool? (member "minify")
    sourcemap := ← withDefault? default.sourcemap bool? (member "sourcemap")
    treeshaking := ← withDefault? default.treeshaking bool? (member "treeshaking") }

/-- Reads options in a JSON text. -/
def reader : Reader Options := do
  let p ← Reader.record "struct CompileOptions"
    [⟨"minify", do let b ← Reader.bool; return fun o => { o with minify := b }⟩,
      ⟨"sourcemap", do let b ← Reader.bool; return fun o => { o with sourcemap := b }⟩,
      ⟨"treeshaking", do let b ← Reader.bool; return fun o => { o with treeshaking := b }⟩]
    {}
  return p.record

end Options

end Folio
