import Folio.Json.Decode
import Folio.Token

/-! Tokens as JSON. -/

namespace Folio.Token

open Json

/-- A token as JSON. -/
def toJson (t : Token) : Json :=
  .object [("kind", .string t.kind.label), ("text", .string t.text),
    ("line", .nat t.location.line.toNat), ("column", .nat t.location.column.toNat)]

/-- The kind that a JSON value names: by its label alone, or by an object with only the label and
nothing under it. -/
def Kind.ofJson? : Json → Option Kind
  | .string name => ofLabel? name
  | .object [(name, .null)] => ofLabel? name
  | _ => none

/-- The token that a JSON value encodes. -/
def ofJson? (j : Json) : Option Token := do
  let member ← j.record? ["kind", "text", "line", "column"] 4
  return {
    kind := ← Kind.ofJson? (← member "kind")
    text := ← (← member "text").string?
    location := ⟨← (← member "line").word32?, ← (← member "column").word32?⟩ }

end Folio.Token
