import Folio.Json.Value

/-! Reading records straight from a JSON text, so that a fault is met at its place in the text: a
wrong value early in the text comes before a missing bracket at its end. -/

namespace Folio.Json.Reader

variable {α σ : Type}

/-- Breaks off because the next value is of another sort than `expected`. A scalar is read first; an
array or object is not. -/
def wrongType (expected : String) : Reader α := do
  match ← peek with
  | some 'n' =>
    word ['n', 'u', 'l', 'l']
    fail (.wrongType .null expected)
  | some 't' =>
    word ['t', 'r', 'u', 'e']
    fail (.wrongType (.bool true) expected)
  | some 'f' =>
    word ['f', 'a', 'l', 's', 'e']
    fail (.wrongType (.bool false) expected)
  | some '-' =>
    skip
    fail (.wrongType (.number (← number false)) expected)
  | some '"' =>
    skip
    fail (.wrongType (.string (← string)) expected)
  | some '[' => fail (.wrongType .array expected)
  | some '{' => fail (.wrongType .object expected)
  | some b =>
    if b.isDigit then fail (.wrongType (.number (← number true)) expected)
    failNext .expectedValue
  | none => failNext .expectedValue

/-- The first byte of the next value. -/
def valueStart : Reader Char := do
  match ← peekPastBlanks with
  | some b => return b
  | none => failNext .endInValue

/-- Reads a truth value. -/
def bool : Reader Bool := do
  match ← valueStart with
  | 't' =>
    word ['t', 'r', 'u', 'e']
    return true
  | 'f' =>
    word ['f', 'a', 'l', 's', 'e']
    return false
  | _ => wrongType "a boolean"

/-- Reads a text, which `expected` names in a fault. -/
def text (expected : String) : Reader String := do
  match ← valueStart with
  | '"' =>
    skip
    string
  | _ => wrongType expected

/-- Reads a number, which `expected` names in a fault. -/
def anyNumber (expected : String) : Reader Number := do
  let b ← valueStart
  if b = '-' then
    skip
    number false
  else if b.isDigit then number true
  else wrongType expected

/-- Reads a whole number of 64 bits. -/
def wholeNumber : Reader Nat := do
  match ← anyNumber "usize" with
  | .natural n => return n
  | .negative n => fail (.wrongValue (.number (.negative n)) "usize")
  | .real x => fail (.wrongType (.number (.real x)) "usize")

/-- Reads a value that may be null. -/
def orNull (reader : Reader α) : Reader (Option α) := do
  if (← peekPastBlanks) = some 'n' then
    word ['n', 'u', 'l', 'l']
    return none
  some <$> reader

/-- Reads the rest of an array of values, after the values `done`, last value first. -/
def itemsWith (reader : Reader α) : Nat → List α → Reader (List α)
  | 0, _ => fail .endInList
  | fuel + 1, done => do
    if ← hasItem done.isEmpty then
      let item ← reader
      itemsWith reader fuel (item :: done)
    else
      skip
      return done.reverse

/-- Reads an array of values. -/
def list (reader : Reader α) : Reader (List α) := do
  match ← valueStart with
  | '[' =>
    skip
    itemsWith reader ((← remaining) + 1) []
  | _ => wrongType "a sequence"

/-- A member of a record: its name, and how its value changes the record that was read so far. -/
structure Member (σ : Type) where
  name : String
  read : Reader (σ → σ)

/-- A record that was read in part, with the names of the members that were read. -/
structure Partial (σ : Type) where
  record : σ
  names : List String

/-- Reads one member of a record. -/
def Partial.add (p : Partial σ) (m : Member σ) : Reader (Partial σ) := do
  let change ← m.read
  return ⟨change p.record, m.name :: p.names⟩

/-- Reads the rest of an object into a record. Members that the record does not know are passed
over; a member that it knows may stand only once. -/
def recordMembers (members : List (Member σ)) : Nat → Bool → Partial σ → Reader (Partial σ)
  | 0, _, _ => fail .endInObject
  | fuel + 1, isFirst, p => do
    match ← memberName? isFirst with
    | none =>
      skip
      return p
    | some name =>
      match members.find? (·.name == name) with
      | none =>
        colon
        skipValue
        recordMembers members fuel false p
      | some m =>
        if name ∈ p.names then
          if (← peekPastBlanks) = some '}' then skip
          fail (.repeatedMember name)
        colon
        recordMembers members fuel false (← p.add m)

/-- Reads an array into a record, its items being the members in their order. Members at the end may
be left out. -/
def recordItems : List (Member σ) → Bool → Partial σ → Reader (Partial σ)
  | [], _, p => do
    arrayEnd
    return p
  | m :: members, isFirst, p => do
    if ← hasItem isFirst then recordItems members false (← p.add m)
    else
      skip
      return p

/-- Reads a record from an object or an array. -/
def record (expected : String) (members : List (Member σ)) (start : σ) : Reader (Partial σ) := do
  match ← valueStart with
  | '[' =>
    skip
    recordItems members true ⟨start, []⟩
  | '{' =>
    skip
    recordMembers members ((← remaining) + 1) true ⟨start, []⟩
  | _ => wrongType expected

/-- Reads a record all of whose members must be there. -/
def fullRecord (expected : String) (members : List (Member σ)) (start : σ) : Reader σ := do
  let p ← record expected members start
  match members.find? (·.name ∉ p.names) with
  | some m => fail (.missingMember m.name)
  | none => return p.record

end Folio.Json.Reader
