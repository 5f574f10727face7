import Folio.Text.Quoted
import Folio.Text.Utf8
import Folio.Json
import Folio.Duration

/-! A place in a JSON text, and what can be wrong there. -/

namespace Folio.Json

/-- What stands where another sort of value was expected. -/
inductive Found where
  | null
  | bool (b : Bool)
  | number (n : Number)
  | string (s : String)
  | array
  | object

/-- How a value is named in a message. -/
def Found.describe : Found → String
  | null => "null"
  | bool b => "boolean `" ++ (if b then "true" else "false") ++ "`"
  | number (.real x) => "floating point `" ++ realText x ++ "`"
  | number n => "integer `" ++ n.text ++ "`"
  | string s => "string " ++ Text.quoted s
  | array => "sequence"
  | object => "map"

/-- What is wrong with a JSON text. -/
inductive Cause where
  | endInList | endInObject | endInString | endInValue
  | expectedColon | expectedItemEnd | expectedMemberEnd | expectedWord | expectedValue
  | invalidEscape | invalidNumber | numberOutOfRange | controlCharacter | keyNotString
  | loneSurrogate | unexpectedEndOfHexEscape | trailingComma | trailingCharacters
  | wrongType (found : Found) (expected : String)
  | wrongValue (found : Found) (expected : String)
  | repeatedMember (name : String)
  | missingMember (name : String)
  | badTime (fault : Duration.Fault)

/-- The wording of a cause. -/
def Cause.message : Cause → String
  | endInList => "EOF while parsing a list"
  | endInObject => "EOF while parsing an object"
  | endInString => "EOF while parsing a string"
  | endInValue => "EOF while parsing a value"
  | expectedColon => "expected `:`"
  | expectedItemEnd => "expected `,` or `]`"
  | expectedMemberEnd => "expected `,` or `\x7d`"
  | expectedWord => "expected ident"
  | expectedValue => "expected value"
  | invalidEscape => "invalid escape"
  | invalidNumber => "invalid number"
  | numberOutOfRange => "number out of range"
  | controlCharacter => "control character (\\u0000-\\u001F) found while parsing a string"
  | keyNotString => "key must be a string"
  | loneSurrogate => "lone leading surrogate in hex escape"
  | unexpectedEndOfHexEscape => "unexpected end of hex escape"
  | trailingComma => "trailing comma"
  | trailingCharacters => "trailing characters"
  | wrongType found expected => "invalid type: " ++ found.describe ++ ", expected " ++ expected
  | wrongValue found expected => "invalid value: " ++ found.describe ++ ", expected " ++ expected
  | repeatedMember name => "duplicate field `" ++ name ++ "`"
  | missingMember name => "missing field `" ++ name ++ "`"
  | badTime fault => fault.message

/-- A cause with its place: the line, and the bytes of the line that were read. -/
structure Fault where
  cause : Cause
  line : Nat
  column : Nat

/-- The wording of a fault. -/
def Fault.message (f : Fault) : String :=
  f.cause.message ++ " at line " ++ toString f.line ++ " column " ++ toString f.column

/-- What is left of a text, after `line - 1` whole lines and `column` bytes of the next. -/
structure Cursor where
  rest : List UInt8
  line : Nat := 1
  column : Nat := 0
  /-- How many bytes are left. -/
  size : Nat := rest.length
  size_eq : size = rest.length := by rfl

/-- The cursor after one more byte. -/
def Cursor.step (c : Cursor) : Cursor :=
  match h : c.rest with
  | [] => c
  | b :: rest =>
    { rest := rest
      line := if b = 10 then c.line + 1 else c.line
      column := if b = 10 then 0 else c.column + 1
      size := c.size - 1
      size_eq := by rw [c.size_eq, h]; rfl }

/-- The cursor after the bytes `bytes`, which must be the next ones of the text. -/
def Cursor.skip (c : Cursor) (bytes : List UInt8) : Cursor :=
  bytes.foldl (fun c _ => c.step) c

/-- A step through a JSON text that may meet a fault. -/
abbrev Reader := StateT Cursor (Except Fault)

namespace Reader

variable {α : Type}

/-- Breaks off at the cursor. -/
def fail (cause : Cause) : Reader α := fun c => .error ⟨cause, c.line, c.column⟩

/-- Breaks off at the cursor, the next byte counted as read. -/
def failNext (cause : Cause) : Reader α := fun c => .error ⟨cause, c.step.line, c.step.column⟩

/-- The next byte, as the character with its code. -/
def peek : Reader (Option Char) := fun c => .ok (c.rest.head?.map fun b => Char.ofNat b.toNat, c)

/-- Passes over the next byte. -/
def skip : Reader Unit := fun c => .ok ((), c.step)

/-- Reads the next byte. -/
def next : Reader (Option Char) := do
  let b ← peek
  skip
  return b

/-- Reads the bytes that satisfy `p`. -/
def takeWhile (p : Char → Bool) : Reader (List Char) := fun c =>
  let bytes := c.rest.takeWhile fun b => p (Char.ofNat b.toNat)
  .ok (bytes.map fun b => Char.ofNat b.toNat, c.skip bytes)

/-- The next byte after any blanks. -/
def peekPastBlanks : Reader (Option Char) := do
  let _ ← takeWhile fun b => b == ' ' || b == '\n' || b == '\t' || b == '\r'
  peek

/-- How many bytes are left. A loop that reads a byte each time makes at most so many turns. -/
def remaining : Reader Nat := fun c => .ok (c.size, c)

end Reader

end Folio.Json
