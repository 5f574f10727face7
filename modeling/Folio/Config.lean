import Folio.Options
import Folio.Path

/-! Configuration of a project. -/

namespace Folio

/-- What is built, from where, and where to. -/
structure Config where
  srcDir : Path := ⟨"src"⟩
  outDir : Path := ⟨"dist"⟩
  compiler : Options := {}
  cache : Bool := true
  /-- How many documents are built at a time. It has no effect on the result. -/
  jobs : Option Nat := none
  deriving DecidableEq, Repr

namespace Config

open Json

/-- A configuration as JSON. -/
def toJson (c : Config) : Json :=
  .object [("srcDir", .string c.srcDir.text), ("outDir", .string c.outDir.text),
    ("compiler", c.compiler.toJson), ("cache", .bool c.cache),
    ("jobs", c.jobs.elim .null .nat)]

/-- The configuration that a JSON value encodes. What is missing keeps its default. -/
def ofJson? (j : Json) : Option Config := do
  let member ← j.record? ["srcDir", "outDir", "compiler", "cache", "jobs"] 0
  let default : Config := {}
  let path (j : Json) : Option Path := j.string?.map Path.mk
  return {
    srcDir := ← withDefault? default.srcDir path (member "srcDir")
    outDir := ← withDefault? default.outDir path (member "outDir")
    compiler := ← withDefault? default.compiler Options.ofJson? (member "compiler")
    cache := ← withDefault? default.cache bool? (member "cache")
    jobs := ← optional? (natBelow? UInt64.size) (member "jobs") }

/-- Reads a configuration in a JSON text. -/
def reader : Reader Config := do
  let path := Reader.text "path string"
  let p ← Reader.record "struct BuildConfig"
    [⟨"srcDir", do let t ← path; return fun c => { c with srcDir := ⟨t⟩ }⟩,
      ⟨"outDir", do let t ← path; return fun c => { c with outDir := ⟨t⟩ }⟩,
      ⟨"compiler", do let o ← Options.reader; return fun c => { c with compiler := o }⟩,
      ⟨"cache", do let b ← Reader.bool; return fun c => { c with cache := b }⟩,
      ⟨"jobs", do let n ← Reader.orNull Reader.wholeNumber; return fun c => { c with jobs := n }⟩]
    {}
  return p.record

/-- The configuration that a JSON text writes. -/
def read (text : String) : Except Fault Config := readWith reader text

/-- The configuration with its directories looked up in `root`, unless they are absolute. -/
def relativeTo (c : Config) (root : Path) : Config :=
  { c with srcDir := root.join c.srcDir, outDir := root.join c.outDir }

end Config

end Folio
