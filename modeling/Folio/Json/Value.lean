import Folio.Json.Scalar

/-! Reading whole values of a JSON text. -/

namespace Folio.Json

namespace Reader

/-- Whether another item of an array follows. `isFirst` says that none was read before it. -/
def hasItem (isFirst : Bool) : Reader Bool := do
  match ← peekPastBlanks with
  | none => failNext .endInList
  | some ']' => return false
  | some b =>
    if isFirst then return true
    if b ≠ ',' then failNext .expectedItemEnd
    skip
    match ← peekPastBlanks with
    | none => failNext .endInValue
    | some ']' => failNext .trailingComma
    | some _ => return true

/-- Passes over the end of an array that needs no more items. -/
def arrayEnd : Reader Unit := do
  match ← peekPastBlanks with
  | none => failNext .endInList
  | some ']' => skip
  | some ',' =>
    skip
    if (← peekPastBlanks) = some ']' then failNext .trailingComma else failNext .trailingCharacters
  | some _ => failNext .trailingCharacters

/-- Reads the name of the next member of an object, if one follows. `isFirst` says that none was
read before it. -/
def memberName? (isFirst : Bool) : Reader (Option String) := do
  match ← peekPastBlanks with
  | none => failNext .endInObject
  | some '}' => return none
  | some b =>
    if !isFirst then
      if b ≠ ',' then failNext .expectedMemberEnd
      skip
    match ← peekPastBlanks with
    | some '"' =>
      skip
      return some (← string)
    | some '}' => failNext .trailingComma
    | some _ => failNext .keyNotString
    | none => failNext .endInValue

/-- Passes over the colon between a member's name and its value. -/
def colon : Reader Unit := do
  match ← peekPastBlanks with
  | some ':' => skip
  | some _ => failNext .expectedColon
  | none => failNext .endInObject

/-- Passes over the end of the whole text. -/
def textEnd : Reader Unit := do
  if (← peekPastBlanks).isSome then failNext .trailingCharacters

mutual

/-- Reads a value, in at most `fuel` steps. -/
def valueFrom : Nat → Reader Json
  | 0 => fail .endInValue
  | fuel + 1 => do
    match ← peekPastBlanks with
    | none => failNext .endInValue
    | some 'n' =>
      word ['n', 'u', 'l', 'l']
      return .null
    | some 't' =>
      word ['t', 'r', 'u', 'e']
      return .bool true
    | some 'f' =>
      word ['f', 'a', 'l', 's', 'e']
      return .bool false
    | some '"' =>
      skip
      return .string (← string)
    | some '[' =>
      skip
      itemsFrom fuel []
    | some '{' =>
      skip
      membersFrom fuel []
    | some '-' =>
      skip
      return .number (← number false)
    | some b =>
      if b.isDigit then return .number (← number true)
      failNext .expectedValue

/-- Reads the rest of an array after the items `done`, last item first. -/
def itemsFrom : Nat → List Json → Reader Json
  | 0, _ => fail .endInList
  | fuel + 1, done => do
    if ← hasItem done.isEmpty then
      let item ← valueFrom fuel
      itemsFrom fuel (item :: done)
    else
      skip
      return .array done.reverse

/-- Reads the rest of an object after the members `done`, last member first. Of members with the same
name the last one counts. -/
def membersFrom : Nat → List (String × Json) → Reader Json
  | 0, _ => fail .endInObject
  | fuel + 1, done => do
    match ← memberName? done.isEmpty with
    | some name =>
      colon
      let value ← valueFrom fuel
      membersFrom fuel ((name, value) :: done.eraseP (·.1 == name))
    | none =>
      skip
      return .object done.reverse

end

/-- Reads a value. -/
def value : Reader Json := do valueFrom (2 * (← remaining) + 2)

/-- Passes over a word, number or string whose content does not matter. -/
def skipScalar (first : Char) : Reader Unit := do
  match first with
  | 'n' => word ['n', 'u', 'l', 'l']
  | 't' => word ['t', 'r', 'u', 'e']
  | 'f' => word ['f', 'a', 'l', 's', 'e']
  | '-' =>
    skip
    skipNumber
  | '"' =>
    skip
    skipString
  | b => if b.isDigit then skipNumber else failNext .expectedValue

/-- Passes over a member's name and the colon after it. -/
def skipName : Reader Unit := do
  match ← peekPastBlanks with
  | some '"' =>
    skip
    skipString
  | some _ => failNext .keyNotString
  | none => failNext .endInObject
  colon

/-- What is open around a value that is passed over. -/
inductive Frame where
  | array
  | object
  deriving DecidableEq

/-- The byte that ends a frame. -/
def Frame.close : Frame → Char
  | array => ']'
  | object => '}'

mutual

/-- Passes over a value inside the open frames, and over all that follows up to their end, in at
most `fuel` steps. -/
def skipFrom : Nat → List Frame → Reader Unit
  | 0, _ => fail .endInValue
  | fuel + 1, frames => do
    match ← peekPastBlanks with
    | none => failNext .endInValue
    | some '[' =>
      skip
      skipRest fuel false (.array :: frames)
    | some '{' =>
      skip
      skipRest fuel false (.object :: frames)
    | some b =>
      skipScalar b
      skipRest fuel true frames

/-- Passes over all up to the end of the open frames. `afterItem` says that a value was just
read, so that a comma may follow. -/
def skipRest : Nat → Bool → List Frame → Reader Unit
  | _, _, [] => pure ()
  | 0, _, _ => fail .endInValue
  | fuel + 1, afterItem, frame :: frames => do
    match ← peekPastBlanks with
    | none => failNext (if frame = .array then .endInList else .endInObject)
    | some b =>
      if b = frame.close then
        skip
        skipRest fuel true frames
      else
        if afterItem then
          if b ≠ ',' then
            failNext (if frame = .array then .expectedItemEnd else .expectedMemberEnd)
          skip
        if frame = .object then skipName
        skipFrom fuel (frame :: frames)

end

/-- Passes over a value that does not matter. It may be nested to any depth. -/
def skipValue : Reader Unit := do skipFrom (2 * (← remaining) + 2) []

end Reader

/-- Reads a whole text. -/
def readWith {α : Type} (reader : Reader α) (text : String) : Except Fault α :=
  (do let a ← reader; Reader.textEnd; return a : Reader α).run' { rest := Text.utf8 text }

/-- The value that a JSON text writes. -/
def read (text : String) : Except Fault Json := readWith Reader.value text

end Folio.Json
