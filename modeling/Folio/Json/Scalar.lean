import Folio.Json.Cursor

/-! Reading the scalars of a JSON text: words, numbers and strings. -/

namespace Folio.Json.Reader

/-- Reads the rest of a word such as `true`. -/
def word : List Char → Reader Unit
  | [] => pure ()
  | expected :: more => do
    match ← next with
    | none => fail .endInValue
    | some b => if b = expected then word more else fail .expectedWord

/-- Adds digits to a number as long as it fits 64 bits. The second number tells how many were
added. -/
def addDigits (n : Nat) (count : Nat) : List Char → Nat × Nat
  | [] => (n, count)
  | d :: ds =>
    let m := n * 10 + (d.toNat - 48)
    if UInt64.size ≤ m then (n, count) else addDigits m (count + 1) ds

/-- Divides by powers of ten until the exponent is used up, in at most `fuel` steps. -/
def divideByPower : Nat → Float → Nat → Float
  | 0, x, _ => x
  | fuel + 1, x, e =>
    if e ≤ 308 then x / Float.ofScientific 1 false e
    else divideByPower fuel (x / Float.ofScientific 1 false 308) (e - 308)

/-- The double nearest to the whole number, multiplied or divided by a power of ten. There is none
where the result would be infinite. Two divisions by `10 ^ 308` leave nothing of any number. -/
def double? (significand : Nat) (exponent : Int) : Option Float :=
  let x := significand.toUInt64.toFloat
  if exponent < 0 then some (divideByPower 3 x exponent.natAbs)
  else if significand = 0 then some 0.0
  else if exponent ≤ 308 then
    let y := x * Float.ofScientific 1 false exponent.toNat
    if y.isInf then none else some y
  else none

/-- A double with its sign, at the end of its text. -/
def signed (isPositive : Bool) (x? : Option Float) : Reader Number :=
  match x? with
  | some x => pure (.real (if isPositive then x else -x))
  | none => fail .numberOutOfRange

/-- Reads the digits of an exponent, of which at least one must follow. An exponent that does not
fit 31 bits makes the number zero, or too large for a double. -/
def exponentPart (isPositive : Bool) (significand : Nat) (exponent : Int) : Reader Number := do
  skip
  let sign ← peek
  if sign = some '+' || sign = some '-' then skip
  match ← next with
  | none => fail .endInValue
  | some first =>
    if !first.isDigit then fail .invalidNumber
    let start ← get
    let digits := first :: (← takeWhile Char.isDigit)
    let limit := 0x7fffffff
    let fitting := (List.range digits.length).takeWhile fun n =>
      (String.ofList (digits.take (n + 1))).toNat?.getD 0 ≤ limit
    if fitting.length < digits.length then
      if significand ≠ 0 && sign ≠ some '-' then
        set (start.skip (start.rest.take fitting.length))
        fail .numberOutOfRange
      else signed isPositive (some 0.0)
    else
      let size : Int := (String.ofList digits).toNat?.getD 0
      signed isPositive (double? significand
        (if sign = some '-' then exponent - size else exponent + size))

/-- Reads the digits after a point, of which at least one must follow, and an exponent. -/
def fractionPart (isPositive : Bool) (significand : Nat) (exponent : Int) : Reader Number := do
  skip
  let digits ← takeWhile Char.isDigit
  if digits.isEmpty then
    if (← peek).isSome then failNext .invalidNumber else failNext .endInValue
  let (n, count) := addDigits significand 0 digits
  let power := exponent - count
  match ← peek with
  | some 'e' | some 'E' => exponentPart isPositive n power
  | _ => signed isPositive (double? n power)

/-- Reads a number after its sign. -/
def number (isPositive : Bool) : Reader Number := do
  match ← next with
  | none => fail .endInValue
  | some first =>
    if !first.isDigit then fail .invalidNumber
    if first = '0' && ((← peek).map Char.isDigit).getD false then failNext .invalidNumber
    let digits := first :: (← if first = '0' then pure [] else takeWhile Char.isDigit)
    let (n, count) := addDigits 0 0 digits
    let dropped := digits.length - count
    match ← peek with
    | some '.' => fractionPart isPositive n dropped
    | some 'e' | some 'E' => exponentPart isPositive n dropped
    | _ =>
      if dropped ≠ 0 then signed isPositive (double? n dropped)
      else if isPositive then pure (.natural n)
      else if n = 0 || 0x8000000000000000 < n then signed isPositive (double? n 0)
      else pure (.negative n)

/-- The value of a hexadecimal digit. -/
def hexDigit? (c : Char) : Option Nat :=
  if c.isDigit then some (c.toNat - 48)
  else if 'a' ≤ c && c ≤ 'f' then some (c.toNat - 87)
  else if 'A' ≤ c && c ≤ 'F' then some (c.toNat - 55)
  else none

/-- The number that hexadecimal digits write. -/
def hexNumber? (cs : List Char) : Option Nat :=
  cs.foldl (fun n? c => n?.bind fun n => (hexDigit? c).map (n * 16 + ·)) (some 0)

/-- Reads the four digits of an escaped code unit. -/
def hexUnit : Reader Nat := do
  let cursor ← get
  let bytes := cursor.rest.take 4
  set (cursor.skip bytes)
  if bytes.length < 4 then fail .endInString
  match hexNumber? (bytes.map fun b => Char.ofNat b.toNat) with
  | some n => return n
  | none => fail .invalidEscape

/-- Reads one given byte inside an escape of a second code unit. -/
def escapePart (expected : Char) : Reader Unit := do
  match ← next with
  | none => fail .endInString
  | some b => if b ≠ expected then fail .unexpectedEndOfHexEscape

/-- Reads the code point of an escape: one unit, or a pair of surrogates. -/
def codePoint : Reader Nat := do
  let unit ← hexUnit
  if 0xDC00 ≤ unit && unit ≤ 0xDFFF then fail .loneSurrogate
  if unit < 0xD800 || 0xDBFF < unit then return unit
  escapePart '\\'
  escapePart 'u'
  let low ← hexUnit
  if low < 0xDC00 || 0xDFFF < low then fail .loneSurrogate
  return (unit - 0xD800) * 0x400 + (low - 0xDC00) + 0x10000

/-- The character of an escape with one letter. -/
def simpleEscape? : Char → Option Char
  | '"' => some '"'
  | '\\' => some '\\'
  | '/' => some '/'
  | 'b' => some '\x08'
  | 'f' => some '\x0c'
  | 'n' => some '\n'
  | 'r' => some '\r'
  | 't' => some '\t'
  | _ => none

/-- Reads what follows the backslash of an escape. -/
def escape : Reader Char := do
  match ← next with
  | none => fail .endInString
  | some 'u' => return Char.ofNat (← codePoint)
  | some c =>
    match simpleEscape? c with
    | some d => return d
    | none => fail .invalidEscape

/-- Reads the rest of a string after the bytes `done`, last byte first, in at most `fuel` steps. -/
def stringBytes : Nat → List UInt8 → Reader (List UInt8)
  | 0, _ => fail .endInString
  | fuel + 1, done => do
    match ← next with
    | none => fail .endInString
    | some '"' => return done.reverse
    | some '\\' =>
      let c ← escape
      stringBytes fuel ((String.utf8EncodeChar c).reverse ++ done)
    | some c =>
      if c.toNat < 0x20 then fail .controlCharacter
      else stringBytes fuel (c.toNat.toUInt8 :: done)

/-- Reads a string after its opening quote. -/
def string : Reader String := do
  let bytes ← stringBytes ((← remaining) + 1) []
  return (Text.ofUtf8 bytes).toOption.getD ""

/-- Passes over the rest of a string whose content does not matter, in at most `fuel` steps. -/
def skipStringFrom : Nat → Reader Unit
  | 0 => fail .endInString
  | fuel + 1 => do
    match ← peek with
    | none => fail .endInString
    | some '"' => skip
    | some '\\' =>
      skip
      match ← next with
      | none => fail .endInString
      | some 'u' => let _ ← hexUnit
      | some c => if (simpleEscape? c).isNone then fail .invalidEscape
      skipStringFrom fuel
    | some c =>
      if c.toNat < 0x20 then fail .controlCharacter
      skip
      skipStringFrom fuel

/-- Passes over a string whose content does not matter, after its opening quote. -/
def skipString : Reader Unit := do skipStringFrom ((← remaining) + 1)

/-- Passes over the digits of an exponent. -/
def skipExponent : Reader Unit := do
  skip
  let sign ← peek
  if sign = some '+' || sign = some '-' then skip
  let first ← next
  if !(first.map Char.isDigit).getD false then fail .invalidNumber
  let _ ← takeWhile Char.isDigit

/-- Passes over a number whose value does not matter, after its sign. It may be of any size. -/
def skipNumber : Reader Unit := do
  let first ← next
  if !(first.map Char.isDigit).getD false then fail .invalidNumber
  if first = some '0' then
    if ((← peek).map Char.isDigit).getD false then failNext .invalidNumber
  else
    let _ ← takeWhile Char.isDigit
  match ← peek with
  | some '.' =>
    skip
    if (← takeWhile Char.isDigit).isEmpty then failNext .invalidNumber
    match ← peek with
    | some 'e' | some 'E' => skipExponent
    | _ => pure ()
  | some 'e' | some 'E' => skipExponent
  | _ => pure ()

end Folio.Json.Reader
