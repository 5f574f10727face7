import Folio.Decimal.Shortest

/-! JSON values and their text. -/

namespace Folio

/-- A number of a JSON text. A whole number without fraction and exponent that fits 64 bits is kept
exactly; every other number is a double. -/
inductive Json.Number where
  | natural (n : Nat)
  /-- The number `-n`. -/
  | negative (n : Nat)
  | real (x : Float)

/-- A JSON value. The members of an object stand in the order of the text. -/
inductive Json where
  | null
  | bool (b : Bool)
  | number (n : Json.Number)
  | string (s : String)
  | array (items : List Json)
  | object (members : List (String × Json))

namespace Json

/-- A whole number that is not negative. -/
def nat (n : Nat) : Json := .number (.natural n)

/-- A text, or null where there is none. -/
def stringOrNull : Option String → Json
  | some s => .string s
  | none => .null

/-- An array of texts. -/
def strings (texts : List String) : Json := .array (texts.map .string)

/-- Digits with a decimal point after the first `whole` of them. -/
def withPoint (digits : String) (whole : Nat) : String :=
  (digits.take whole).toString ++ "." ++ (digits.drop whole).toString

/-- An exponent of ten with its sign and at least two digits. -/
def exponentText (e : Int) : String :=
  let digits := toString e.natAbs
  (if e < 0 then "e-" else "e+") ++ (if digits.length < 2 then "0" else "") ++ digits

/-- The text of a double: the fewest digits that read back. Doubles from `10 ^ -5` up to, but
not with, `10 ^ 16` have no exponent, and a point always stands between digits there. -/
def realText (x : Float) : String :=
  let d := Decimal.shortest x
  let digits := toString d.digits
  let lead : Int := d.exponent + digits.length - 1
  let size :=
    if d.digits = 0 then "0.0"
    else if -5 ≤ lead && lead ≤ 15 then
      if lead < 0 then "0." ++ "".pushn '0' (-lead - 1).toNat ++ digits
      else if 0 ≤ d.exponent then digits ++ "".pushn '0' d.exponent.toNat ++ ".0"
      else withPoint digits (lead.toNat + 1)
    else (if digits.length = 1 then digits else withPoint digits 1) ++ exponentText lead
  if Decimal.isNegative x then "-" ++ size else size

/-- The text of a number. -/
def Number.text : Number → String
  | natural n => toString n
  | negative n => "-" ++ toString n
  | real x => realText x

/-- One character of a string: quotes, backslashes and control characters are escaped. -/
def escaped (c : Char) : String :=
  if c = '"' then "\\\""
  else if c = '\\' then "\\\\"
  else if c = '\n' then "\\n"
  else if c = '\r' then "\\r"
  else if c = '\t' then "\\t"
  else if c = '\x08' then "\\b"
  else if c = '\x0c' then "\\f"
  else if c.toNat < 0x20 then
    "\\u00" ++ (if c.toNat < 0x10 then "0" else "") ++ String.ofList (Nat.toDigits 16 c.toNat)
  else c.toString

/-- The text of a string, with its quotes. -/
def stringText (s : String) : String :=
  s.toList.foldl (fun out c => out ++ escaped c) "\"" ++ "\""

mutual

/-- Adds the text of a value without any layout. -/
def write (out : String) : Json → String
  | null => out ++ "null"
  | bool b => out ++ (if b then "true" else "false")
  | number n => out ++ n.text
  | string s => out ++ stringText s
  | array items => writeItems (out ++ "[") "" items
  | object members => writeMembers (out ++ "\x7b") "" members

/-- Adds the items of an array, each after `separator` or a comma, and the closing bracket. -/
def writeItems (out separator : String) : List Json → String
  | [] => out ++ "]"
  | item :: items => writeItems (write (out ++ separator) item) "," items

/-- Adds the members of an object, each after `separator` or a comma, and the closing brace. -/
def writeMembers (out separator : String) : List (String × Json) → String
  | [] => out ++ "\x7d"
  | (name, value) :: members =>
    writeMembers (write (out ++ separator ++ stringText name ++ ":") value) "," members

end

/-- The text of a value on one line, without blanks. -/
def compact (j : Json) : String := write "" j

/-- A new line with two blanks for each level. -/
def newline (level : Nat) : String := "".pushn ' ' (2 * level) |> ("\n" ++ ·)

mutual

/-- Adds the text of a value, one item or member a line. -/
def writePretty (level : Nat) (out : String) : Json → String
  | array [] => out ++ "[]"
  | object [] => out ++ "\x7b\x7d"
  | array items => writePrettyItems level (out ++ "[") "" items
  | object members => writePrettyMembers level (out ++ "\x7b") "" members
  | null => out ++ "null"
  | bool b => out ++ (if b then "true" else "false")
  | number n => out ++ n.text
  | string s => out ++ stringText s

/-- Adds the items of an array, each on a line of its own, and the closing bracket. -/
def writePrettyItems (level : Nat) (out separator : String) : List Json → String
  | [] => out ++ newline level ++ "]"
  | item :: items =>
    let line := out ++ separator ++ newline (level + 1)
    writePrettyItems level (writePretty (level + 1) line item) "," items

/-- Adds the members of an object, each on a line of its own, and the closing brace. -/
def writePrettyMembers (level : Nat) (out separator : String) : List (String × Json) → String
  | [] => out ++ newline level ++ "\x7d"
  | (name, value) :: members =>
    let line := out ++ separator ++ newline (level + 1) ++ stringText name ++ ": "
    writePrettyMembers level (writePretty (level + 1) line value) "," members

end

/-- The text of a value over several lines, indented by two blanks a level. -/
def pretty (j : Json) : String := writePretty 0 "" j

end Json

end Folio
