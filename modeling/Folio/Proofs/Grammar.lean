import Folio.Proofs.Statements
import Mathlib.Data.List.Infix

/-! The surface grammar of documents: which tokens write which statements. A statement is written by
marks, and a mark leaves open all that the parser does not look at: where a token stands, and how a
literal is quoted. -/

namespace Folio.Grammar
open Token (Kind)

/-- What is asked of one token. -/
inductive Mark where
  /-- The keyword that opens a statement, at its place. -/
  | opener (k : Keyword) (location : Location)
  | word (k : Keyword)
  | symbol (s : Symbol)
  | name (text : String)
  | literal (value : String)
  | piece (kind : Kind) (text : String)

/-- Whether a token is what a mark asks for. -/
def Mark.Fits : Mark → Token → Prop
  | opener k location, t => t.kind = .keyword k ∧ t.location = location
  | word k, t => t.kind = .keyword k
  | symbol s, t => t.kind = .symbol s
  | name text, t => t.kind = .identifier ∧ t.text = text
  | literal value, t => t.kind = .string ∧ t.value = value
  | piece kind text, t => t.kind = kind ∧ t.text = text

instance : (m : Mark) → (t : Token) → Decidable (m.Fits t)
  | .opener .., _ | .name _, _ | .literal _, _ | .piece .., _ => inferInstanceAs (Decidable (_ ∧ _))
  | .word _, _ | .symbol _, _ => inferInstanceAs (Decidable (_ = _))

/-- The tokens `ts` begin with tokens for the marks, and `rest` is left after them. -/
inductive Writes : List Mark → List Token → List Token → Prop where
  | nil (rest : List Token) : Writes [] rest rest
  | cons {m : Mark} {ms : List Mark} {t : Token} {ts rest : List Token} (fits : m.Fits t)
      (more : Writes ms ts rest) : Writes (m :: ms) (t :: ts) rest

theorem writes_nil {ts rest : List Token} : Writes [] ts rest ↔ ts = rest := by
  constructor
  · intro h
    cases h
    rfl
  · rintro rfl
    exact .nil ts

theorem writes_cons {m : Mark} {ms : List Mark} {ts rest : List Token} :
    Writes (m :: ms) ts rest ↔ ∃ t more, ts = t :: more ∧ m.Fits t ∧ Writes ms more rest := by
  constructor
  · intro h
    cases h with
    | cons fits more => exact ⟨_, _, rfl, fits, more⟩
  · rintro ⟨t, more, rfl, fits, h⟩
    exact .cons fits h

theorem writes_append {a b : List Mark} {ts rest : List Token} :
    Writes (a ++ b) ts rest ↔ ∃ mid, Writes a ts mid ∧ Writes b mid rest := by
  induction a generalizing ts with
  | nil => simp [writes_nil]
  | cons m ms ih =>
    simp only [List.cons_append, writes_cons, ih]
    constructor
    · rintro ⟨t, more, rfl, fits, mid, ha, hb⟩
      exact ⟨mid, ⟨t, more, rfl, fits, ha⟩, hb⟩
    · rintro ⟨mid, ⟨t, more, rfl, fits, ha⟩, hb⟩
      exact ⟨t, more, rfl, fits, mid, ha, hb⟩

/-- What stands after the tokens does not matter. -/
theorem Writes.append_rest {ms : List Mark} {ts rest : List Token} (h : Writes ms ts rest)
    (more : List Token) : Writes ms (ts ++ more) (rest ++ more) := by
  induction h with
  | nil rest => exact .nil (rest ++ more)
  | cons fits _ ih => exact .cons fits ih

instance decideWrites : (ms : List Mark) → (ts rest : List Token) → Decidable (Writes ms ts rest)
  | [], ts, rest => decidable_of_iff (ts = rest) writes_nil.symm
  | _ :: _, [], _ => .isFalse nofun
  | m :: ms, t :: ts, rest =>
    have := decideWrites ms ts rest
    decidable_of_iff (m.Fits t ∧ Writes ms ts rest)
      ⟨fun h => .cons h.1 h.2, fun | .cons fits more => ⟨fits, more⟩⟩

/-- Things with commas between them. -/
def commas : List (List Mark) → List Mark
  | [] => []
  | [item] => item
  | item :: next :: items => item ++ .symbol .comma :: commas (next :: items)

/-- A name, where there is one. -/
def nameMarks (name : Option String) : List Mark := (name.map Mark.name).toList

/-- A list of names in brackets. An empty list is left out, with its brackets. -/
def listMarks (opening close : Symbol) (names : List String) : List Mark :=
  match names with
  | [] => []
  | names => .symbol opening :: (commas (names.map fun n => [.name n]) ++ [.symbol close])

/-- What only this sort of construct has before its attributes. -/
def headerMarks : Header → List Mark
  | .plain _ | .type _ => []
  | .component typeParams => listMarks .openingTagStart .tagEnd typeParams
  | .event none => []
  | .event (some target) => [.name "on", .name target]
  | .route path none => (path.map Mark.literal).toList
  | .route path (some component) =>
    (path.map Mark.literal).toList ++ [.symbol .arrow, .name component]
  | .hook parameters => listMarks .leftParen .rightParen parameters

def pairMarks (pair : String × String) : List Mark :=
  [.name pair.1, .symbol .assign, .literal pair.2]

/-- Attributes in the order of their keys. -/
def attributeMarks (attributes : Attributes) : List Mark :=
  attributes.entries.flatMap pairMarks

/-- Whether a construct that is written like this can be told apart from all others. Without a name
the key of an attribute would stand in the name's place, `on` would stand there for an event with a
target, and an attribute `on` in the place of a target. A type has no attributes, and a route has no
name but its component. -/
def Distinct (name : Option String) (attributes : Attributes) : Header → Prop
  | .plain _ => name.isSome ∨ attributes = .empty
  | .component names | .hook names => name.isSome ∨ names ≠ [] ∨ attributes = .empty
  | .event none =>
    (name.isSome ∨ attributes = .empty) ∧ ∀ e ∈ attributes.entries.head?, e.1 ≠ "on"
  | .event (some _) => name.isSome
  | .route _ component => name = none ∧ (component.isSome ∨ attributes = .empty)
  | .type definition => definition = none ∧ attributes = .empty

instance (name : Option String) (attributes : Attributes) :
    (header : Header) → Decidable (Distinct name attributes header)
  | .plain _ => inferInstanceAs (Decidable (_ ∨ _))
  | .component _ | .hook _ => inferInstanceAs (Decidable (_ ∨ _ ∨ _))
  | .event none => inferInstanceAs (Decidable ((_ ∨ _) ∧ _))
  | .event (some _) => inferInstanceAs (Decidable (_ = true))
  | .route .. => inferInstanceAs (Decidable (_ ∧ (_ ∨ _)))
  | .type _ => inferInstanceAs (Decidable (_ ∧ _))

/-- A construct up to its body. -/
structure Title where
  header : Header
  name : Option String
  attributes : Attributes
  distinct : Distinct name attributes header

def Title.marks (t : Title) : List Mark :=
  nameMarks t.name ++ (headerMarks t.header ++ attributeMarks t.attributes)

/-- No closing brace comes before the brace that it closes, and none is missing. -/
def Balanced (kinds : List Kind) : Prop :=
  (∀ p ∈ kinds.inits, p.count (.symbol .rightBrace) ≤ p.count (.symbol .leftBrace)) ∧
    kinds.count (.symbol .rightBrace) = kinds.count (.symbol .leftBrace)

instance (kinds : List Kind) : Decidable (Balanced kinds) :=
  inferInstanceAs (Decidable (_ ∧ _))

theorem Balanced.count_le {before after : List Kind} (h : Balanced (before ++ after)) :
    before.count (.symbol .rightBrace) ≤ before.count (.symbol .leftBrace) :=
  h.1 before (List.mem_inits _ _ |>.mpr ⟨after, rfl⟩)

/-- What may stand only inside braces in the definition of a type. -/
def endsDefinition (kind : Kind) : Bool := kind = .symbol .semicolon || kind.opensConstruct

/-- How many braces are open after tokens of these kinds. -/
def openBraces (kinds : List Kind) : Nat :=
  kinds.count (.symbol .leftBrace) - kinds.count (.symbol .rightBrace)

/-- The definition of a type: balanced, without a semicolon or the keyword of a construct outside all
braces. -/
structure Definition where
  pieces : List (Kind × String)
  plain : ∀ p ∈ pieces, p.1 ≠ .eof ∧ p.1.isTrivia = false
  balanced : Balanced (pieces.map Prod.fst)
  inside : ∀ i, (h : i < pieces.length) → endsDefinition pieces[i].1 = true →
    0 < openBraces ((pieces.take i).map Prod.fst)

def Definition.marks (d : Definition) : List Mark := d.pieces.map fun p => .piece p.1 p.2

/-- The texts of a definition with one blank between them. -/
def Definition.text (d : Definition) : String := " ".intercalate (d.pieces.map Prod.snd)

/-- What a module statement names: something by its name, or all by `*`, and another name for it. -/
structure Specifier where
  name : Option String
  other : Option String

def Specifier.marks (s : Specifier) : List Mark :=
  s.name.elim (.piece (.symbol .multiply) "*") .name ::
    s.other.elim [] fun other => [.word .renamed, .name other]

def Specifier.text (s : Specifier) : String :=
  s.name.getD "*" ++ s.other.elim "" (" as " ++ ·)

def specifierMarks (specifiers : List Specifier) : List Mark :=
  .symbol .leftBrace :: (commas (specifiers.map Specifier.marks) ++ [.symbol .rightBrace])

def sourceMarks (source : Option String) : List Mark :=
  source.elim [] fun path => [.word .source, .literal path]

/-- A statement as it is written, with the place of its keyword. -/
inductive Statement where
  | construct (title : Title) (children : List Statement) (location : Location)
  | definition (name : Option String) (content : Definition) (location : Location)
  | imports (specifiers : List Specifier) (source : Option String) (location : Location)
  /-- An import of a module for its effect alone. -/
  | loads (path : String) (location : Location)
  | exports (isDefault : Bool) (specifiers : List Specifier) (source : Option String)
      (location : Location)

mutual

/-- The marks that write a statement. -/
def Statement.marks : Statement → List Mark
  | .construct title children location =>
    .opener title.header.keyword location :: (title.marks ++
      (.symbol .leftBrace :: (Statement.listMarks children ++ [.symbol .rightBrace])))
  | .definition name content location =>
    .opener .type location :: (nameMarks name ++
      (.symbol .assign :: (content.marks ++ [.symbol .semicolon])))
  | .imports specifiers source location =>
    .opener .imports location :: (specifierMarks specifiers ++
      (sourceMarks source ++ [.symbol .semicolon]))
  | .loads path location => [.opener .imports location, .literal path, .symbol .semicolon]
  | .exports isDefault specifiers source location =>
    .opener .exports location :: ((if isDefault then [.name "default"] else []) ++
      (specifierMarks specifiers ++ (sourceMarks source ++ [.symbol .semicolon])))

/-- The marks that write statements, one after the other. -/
def Statement.listMarks : List Statement → List Mark
  | [] => []
  | s :: ss => s.marks ++ Statement.listMarks ss

end

mutual

/-- The tree of a statement. -/
def Statement.node : Statement → Node
  | .construct title children location =>
    .construct title.header (title.name.getD "") title.attributes (Statement.nodes children) location
  | .definition name content location =>
    .construct (.type (some content.text)) (name.getD "") .empty [] location
  | .imports specifiers source location => .imports (specifiers.map Specifier.text) source location
  | .loads path location => .imports [] (some path) location
  | .exports isDefault specifiers source location =>
    .exports (specifiers.map Specifier.text) source isDefault location

def Statement.nodes : List Statement → List Node
  | [] => []
  | s :: ss => s.node :: Statement.nodes ss

end

mutual

/-- How many statements are nested in one another, this one included. -/
def Statement.height : Statement → Nat
  | .construct _ children _ => Statement.heights children + 1
  | .definition .. | .imports .. | .loads .. | .exports .. => 1

/-- The greatest height of some statements. -/
def Statement.heights : List Statement → Nat
  | [] => 0
  | s :: ss => max s.height (Statement.heights ss)

end

end Folio.Grammar
