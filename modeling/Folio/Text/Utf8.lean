/-! Texts as bytes. A text is stored in one to four bytes a character; reading bytes back finds the
first place where they are no text. -/

namespace Folio.Text

/-- The bytes of a text. -/
def utf8 (s : String) : List UInt8 :=
  s.toList.flatMap String.utf8EncodeChar

/-- Why bytes are no text. -/
inductive Utf8Fault where
  /-- The `length` bytes from `index` on begin no character. -/
  | invalid (length index : Nat)
  /-- The bytes end inside the character that starts at `index`. -/
  | incomplete (index : Nat)
  deriving DecidableEq, Repr

/-- The wording of a fault. -/
def Utf8Fault.message : Utf8Fault → String
  | invalid length index =>
    "invalid utf-8 sequence of " ++ toString length ++ " bytes from index " ++ toString index
  | incomplete index => "incomplete utf-8 byte sequence from index " ++ toString index

/-- A byte that continues a character. -/
def isTail (b : UInt8) : Bool := 0x80 ≤ b && b ≤ 0xBF

/-- The six bits that a continuing byte carries. -/
def tailBits (b : UInt8) : Nat := b.toNat % 0x40

/-- A second byte that may follow the first byte `a` of a three-byte character. -/
def isSecondOfThree (a b : UInt8) : Bool :=
  if a = 0xE0 then 0xA0 ≤ b && b ≤ 0xBF
  else if a = 0xED then 0x80 ≤ b && b ≤ 0x9F
  else isTail b

/-- A second byte that may follow the first byte `a` of a four-byte character. -/
def isSecondOfFour (a b : UInt8) : Bool :=
  if a = 0xF0 then 0x90 ≤ b && b ≤ 0xBF
  else if a = 0xF4 then 0x80 ≤ b && b ≤ 0x8F
  else isTail b

/-- Reads the characters of the bytes from `index` on, after the characters `done`, last character
first. -/
def ofUtf8From (index : Nat) (done : List Char) : List UInt8 → Except Utf8Fault (List Char)
  | [] => .ok done.reverse
  | a :: rest =>
    if a < 0x80 then ofUtf8From (index + 1) (Char.ofNat a.toNat :: done) rest
    else if 0xC2 ≤ a && a ≤ 0xDF then
      match rest with
      | [] => .error (.incomplete index)
      | b :: rest =>
        if isTail b then
          ofUtf8From (index + 2) (Char.ofNat (a.toNat % 0x20 * 0x40 + tailBits b) :: done) rest
        else .error (.invalid 1 index)
    else if 0xE0 ≤ a && a ≤ 0xEF then
      match rest with
      | [] => .error (.incomplete index)
      | [b] => .error (if isSecondOfThree a b then .incomplete index else .invalid 1 index)
      | b :: c :: rest =>
        if !isSecondOfThree a b then .error (.invalid 1 index)
        else if !isTail c then .error (.invalid 2 index)
        else
          let code := (a.toNat % 0x10 * 0x40 + tailBits b) * 0x40 + tailBits c
          ofUtf8From (index + 3) (Char.ofNat code :: done) rest
    else if 0xF0 ≤ a && a ≤ 0xF4 then
      match rest with
      | [] => .error (.incomplete index)
      | [b] => .error (if isSecondOfFour a b then .incomplete index else .invalid 1 index)
      | [b, c] =>
        .error (if !isSecondOfFour a b then .invalid 1 index
          else if isTail c then .incomplete index else .invalid 2 index)
      | b :: c :: d :: rest =>
        if !isSecondOfFour a b then .error (.invalid 1 index)
        else if !isTail c then .error (.invalid 2 index)
        else if !isTail d then .error (.invalid 3 index)
        else
          let code := ((a.toNat % 8 * 0x40 + tailBits b) * 0x40 + tailBits c) * 0x40 + tailBits d
          ofUtf8From (index + 4) (Char.ofNat code :: done) rest
    else .error (.invalid 1 index)

/-- The text that the bytes store. -/
def ofUtf8 (bytes : List UInt8) : Except Utf8Fault String :=
  (ofUtf8From 0 [] bytes).map String.ofList

end Folio.Text
