import Folio.Json

/-! Taking JSON values apart. Nothing is converted: a value of another sort than the wanted one is
refused. -/

namespace Folio.Json

/-- A text. -/
def string? : Json → Option String
  | .string s => some s
  | _ => none

/-- A truth value. -/
def bool? : Json → Option Bool
  | .bool b => some b
  | _ => none

/-- A whole number below a bound. -/
def natBelow? (bound : Nat) : Json → Option Nat
  | .number (.natural n) => if n < bound then some n else none
  | _ => none

/-- A whole number of 32 bits. -/
def word32? (j : Json) : Option UInt32 := (j.natBelow? UInt32.size).map Nat.toUInt32

/-- Any number, as a double. -/
def double? : Json → Option Float
  | .number (.natural n) => some n.toUInt64.toFloat
  | .number (.negative n) => some (-n.toUInt64.toFloat)
  | .number (.real x) => some x
  | _ => none

/-- The items of an array. -/
def items? : Json → Option (List Json)
  | .array items => some items
  | _ => none

/-- An array of texts. -/
def strings? (j : Json) : Option (List String) := do (← j.items?).mapM string?

/-- An object of texts. -/
def pairs? : Json → Option (List (String × String))
  | .object members => members.mapM fun (name, value) => value.string?.map (name, ·)
  | _ => none

/-- A value that may be missing or null. -/
def optional? {α : Type} (decode : Json → Option α) : Option Json → Option (Option α)
  | none | some .null => some none
  | some j => (decode j).map some

/-- A value that may be missing. -/
def withDefault? {α : Type} (default : α) (decode : Json → Option α) : Option Json → Option α
  | none => some default
  | some j => decode j

/-- The members of a record by their names: those of an object, where none of them may be repeated,
or the items of an array in the order of the names. An array has at least `least` items; members
after those may be left out. -/
def record? (names : List String) (least : Nat) : Json → Option (String → Option Json)
  | .object members =>
    if names.all fun name => (members.filter (·.1 == name)).length ≤ 1 then
      some fun name => members.lookup name
    else none
  | .array items =>
    if least ≤ items.length && items.length ≤ names.length then
      some fun name => (names.zip items).lookup name
    else none
  | _ => none

end Folio.Json
