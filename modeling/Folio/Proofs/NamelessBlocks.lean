import Folio.Proofs.Completeness
import Folio.Proofs.Spelling

/-! Blocks without a name. The name of a block and the key of an attribute are both identifiers, and the
parser takes the first identifier behind the keyword for the name. In a block that has none, the first
attribute is lost to it. -/

namespace Folio

/-- Attributes as they are written, each behind a blank. -/
def attributeText : List (String × String) → String
  | [] => ""
  | e :: es => " " ++ e.1 ++ "=\"" ++ e.2 ++ "\"" ++ attributeText es

/-- A plain block with attributes and an empty body. -/
def Block.text (b : Block) (name : Option String) (pairs : List (String × String)) : String :=
  b.spelling ++ name.elim "" (" " ++ ·) ++ attributeText pairs ++ " \x7b \x7d"

/-- What is read as the name of a block, and as its attributes. -/
def Block.asRead (name : Option String) (pairs : List (String × String)) :
    String × List (String × String) :=
  match name, pairs with
  | some name, pairs => (name, pairs)
  | none, [] => ("", [])
  | none, first :: rest => (first.1, rest)

/-- An attribute that can be written in double quotes. -/
structure Writable (pair : String × String) : Prop where
  key : IsIdentifier pair.1
  value : Token.Content '"' pair.2.toList

instance (pair : String × String) : Decidable (Writable pair) :=
  decidable_of_iff (IsIdentifier pair.1 ∧ Token.Content '"' pair.2.toList)
    ⟨fun h => ⟨h.1, h.2⟩, fun h => ⟨h.key, h.value⟩⟩

namespace Grammar

variable {name : Option String} {pairs : List (String × String)} {rest : List Char}

/-- A plain block with an empty body, behind its keyword. -/
def blockMarks (name : Option String) (pairs : List (String × String)) : List Mark :=
  nameMarks name ++ (pairs.flatMap pairMarks ++ [.symbol .leftBrace, .symbol .rightBrace])

theorem spells_pair {pair : String × String} (h : Writable pair) :
    Spells (pairMarks pair) (" " ++ pair.1 ++ "=\"" ++ pair.2 ++ "\"").toList rest := by
  have hvalue : Spells [.literal pair.2] ('"' :: (pair.2.toList ++ ['"'])) rest :=
    spells_literal (.inl rfl) h.value
  have hassign : Spells [.symbol .assign] Symbol.assign.spelling
      ('"' :: (pair.2.toList ++ ['"']) ++ rest) :=
    spells_token (lexeme_lone rfl (by decide) rfl) rfl rfl
  have hkey : Spells [.name pair.1] pair.1.toList
      (Symbol.assign.spelling ++ '"' :: (pair.2.toList ++ ['"']) ++ rest) :=
    spells_name h.key (endsWord_cons '=' (by decide))
  have htext : (" " ++ pair.1 ++ "=\"" ++ pair.2 ++ "\"").toList =
      ' ' :: (pair.1.toList ++ (Symbol.assign.spelling ++ '"' :: (pair.2.toList ++ ['"']))) := by
    simp [Symbol.spelling]
  rw [htext]
  exact (hkey.append (hassign.append hvalue)).after_blank ' ' (by decide)

theorem spells_pairs (h : ∀ e ∈ pairs, Writable e) :
    Spells (pairs.flatMap pairMarks) (attributeText pairs).toList rest := by
  induction pairs with
  | nil => exact spells_nothing
  | cons e es ih =>
    obtain ⟨he, hes⟩ := List.forall_mem_cons.mp h
    rw [attributeText, String.toList_append]
    exact (spells_pair he).append (ih hes)

theorem endsWord_attributes : EndsWord ((attributeText pairs).toList ++ ' ' :: rest) := by
  cases pairs with
  | nil => exact endsWord_cons ' ' (by decide)
  | cons e es =>
    simp only [attributeText, String.toList_append, List.append_assoc]
    exact endsWord_cons ' ' (by decide)

theorem spells_optional_name (hn : ∀ n ∈ name, IsIdentifier n) (hr : EndsWord rest) :
    Spells (nameMarks name) (name.elim "" (" " ++ ·)).toList rest := by
  cases name with
  | none => exact spells_nothing
  | some name =>
    have hname := (spells_name (hn name rfl) hr).after_blank ' ' (by decide)
    simpa [nameMarks] using hname

theorem spells_block (b : Block) (hn : ∀ n ∈ name, IsIdentifier n) (hp : ∀ e ∈ pairs, Writable e) :
    Spells (.opener (.block b) .start :: blockMarks name pairs) (b.text name pairs).toList [] := by
  have hclose : Spells [.symbol .rightBrace] (' ' :: Symbol.rightBrace.spelling) [] :=
    (spells_symbol (by decide)).after_blank ' ' (by decide)
  have hbody : Spells [.symbol .leftBrace, .symbol .rightBrace]
      (' ' :: (Symbol.leftBrace.spelling ++ ' ' :: Symbol.rightBrace.spelling)) [] :=
    ((spells_symbol (by decide)).append hclose).after_blank ' ' (by decide)
  have hattributes := (spells_pairs hp).append hbody
  have hnext : EndsWord ((attributeText pairs).toList ++
      ' ' :: (Symbol.leftBrace.spelling ++ ' ' :: Symbol.rightBrace.spelling) ++ []) := by
    rw [List.append_nil]
    exact endsWord_attributes
  have hname := (spells_optional_name hn hnext).append hattributes
  have hkeyword : EndsWord ((name.elim "" (" " ++ ·)).toList ++ ((attributeText pairs).toList ++
      ' ' :: (Symbol.leftBrace.spelling ++ ' ' :: Symbol.rightBrace.spelling)) ++ []) := by
    cases name with
    | none => exact hnext
    | some name =>
      rw [Option.elim, String.toList_append]
      exact endsWord_cons ' ' (by decide)
  have htext : (b.text name pairs).toList = b.spelling.toList ++
      ((name.elim "" (" " ++ ·)).toList ++ ((attributeText pairs).toList ++
        ' ' :: (Symbol.leftBrace.spelling ++ ' ' :: Symbol.rightBrace.spelling))) := by
    simp only [Block.text, String.toList_append, List.append_assoc]
    rfl
  rw [htext]
  exact (spells_opener (.block b) hkeyword).append hname

end Grammar

namespace Heading
open Grammar

variable {name : Option String} {pairs : List (String × String)} {ts rest : List Token} {brace : Token}

/-- The first identifier behind the keyword is the name, whatever it was written for. -/
theorem plain_opening (b : Block) (location : Location)
    (h : Writes (nameMarks name ++ pairs.flatMap pairMarks) ts (brace :: rest))
    (hb : brace.kind = .symbol .leftBrace) :
    opening (.block b) location ts = some (.construct (.plain b) (Block.asRead name pairs).1
      (.ofList (Block.asRead name pairs).2), brace :: rest) := by
  have hopening {x : String} {es : List (String × String)} {us : List Token}
      (hx : Heading.name ts = (x, us))
      (hus : attributesFrom .empty us = (.ofList es, brace :: rest)) :
      opening (.block b) location ts =
        some (.construct (.plain b) x (.ofList es), brace :: rest) := by
    rw [opening, hx]
    simp only [opened, Heading.attributes, hus]
  obtain ⟨mid, hname, hpairs⟩ := writes_append.mp h
  cases name with
  | some name =>
    exact hopening (name_writes hname (by simp)) (attributesFrom_writes .empty hpairs hb)
  | none =>
    obtain rfl := writes_nil.mp hname
    cases pairs with
    | nil =>
      obtain rfl := writes_nil.mp hpairs
      exact hopening (name_writes hname fun _ => by simp [hb]) (attributesFrom_writes .empty hpairs hb)
    | cons first more =>
      obtain ⟨_, hfirst, hmore⟩ := writes_append.mp hpairs
      obtain ⟨k, _, rfl, ⟨hk, htext⟩, hfirst⟩ := writes_cons.mp hfirst
      obtain ⟨a, _, rfl, ha, hfirst⟩ := writes_cons.mp hfirst
      obtain ⟨v, after, rfl, ⟨hv, -⟩, hfirst⟩ := writes_cons.mp hfirst
      obtain rfl := writes_nil.mp hfirst
      have ha : a.kind = .symbol .assign := ha
      have hx : Heading.name (k :: a :: v :: after) = (first.1, a :: v :: after) := by
        simp [Heading.name, identifier?, hk, htext]
      refine hopening hx ?_
      -- The value of the first attribute is left behind, and belongs to no key.
      rw [attributesFrom_other (by rw [ha]; rfl) (by simp [ha]),
        attributesFrom_other (by rw [hv]; rfl) (by simp [hv])]
      exact attributesFrom_writes .empty hmore hb

end Heading

namespace Program
open Parse Grammar

variable {name : Option String} {pairs : List (String × String)}

theorem relocate_block (b : Block) (hn : ∀ n ∈ name, IsIdentifier n)
    (hp : ∀ e ∈ pairs, Writable e) :
    (parseSource (b.text name pairs)).statements.map (Node.relocate fun _ => .start) =
      [.construct (.plain b) (Block.asRead name pairs).1 (.ofList (Block.asRead name pairs).2) []
        .start] := by
  obtain ⟨ts, hwrites, hparse⟩ := exists_tokens (spells_block b hn hp)
  obtain ⟨t, more, rfl, ⟨hk, hl⟩, hmarks⟩ := writes_cons.mp hwrites
  rw [blockMarks, ← List.append_assoc] at hmarks
  obtain ⟨_, hheading, hbraces⟩ := writes_append.mp hmarks
  obtain ⟨brace, _, rfl, hb, hbraces⟩ := writes_cons.mp hbraces
  obtain ⟨close, _, rfl, hc, hbraces⟩ := writes_cons.mp hbraces
  obtain rfl := writes_nil.mp hbraces
  have hc : close.kind = .symbol .rightBrace := hc
  have hkeyword : opening t more = Heading.opening (.block b) t.location more := by rw [opening, hk]
  have hopen := hkeyword.trans (Heading.plain_opening b t.location hheading hb)
  rw [hparse, body_block (endsBody_keyword hk) (not_tooDeep (by decide)) hopen hb,
    body_end (by simp [endsBody, hc])]
  simp only [afterBody, Heading.skip_next hc]
  rw [body_end rfl, hl]
  rfl

theorem statements_block (b : Block) (hn : ∀ n ∈ name, IsIdentifier n)
    (hp : ∀ e ∈ pairs, Writable e) :
    ∃ attributes location, (parseSource (b.text name pairs)).statements =
        [.construct (.plain b) (Block.asRead name pairs).1 attributes [] location] ∧
      ∀ key, attributes.get? key = (Block.asRead name pairs).2.reverse.lookup key := by
  obtain ⟨node, hstatements, hnode⟩ := List.map_eq_singleton_iff.mp (relocate_block b hn hp)
  cases node with
  | construct header name attributes children location =>
    rw [Node.relocate, Node.relocateAll_eq_map] at hnode
    injection hnode with hheader hname hattributes hchildren
    rw [List.map_eq_nil_iff.mp hchildren, hheader, hname] at hstatements
    refine ⟨attributes, location, hstatements, fun key => ?_⟩
    rw [hattributes, SortedMap.get?_ofList]
  | imports | exports | element | text | expression => cases hnode

/-- In a block without a name the key of the first attribute is the name, and only the attributes
behind it are kept, each key with its last value. With a name in front, all of them are kept. -/
theorem first_key_is_name (b : Block) (first : String × String) (rest : List (String × String))
    (h : ∀ e ∈ first :: rest, Writable e) :
    (∃ attributes location, (parseSource (b.text none (first :: rest))).statements =
        [.construct (.plain b) first.1 attributes [] location] ∧
      ∀ key, attributes.get? key = rest.reverse.lookup key) ∧
    ∀ name, IsIdentifier name →
      ∃ attributes location, (parseSource (b.text (some name) (first :: rest))).statements =
          [.construct (.plain b) name attributes [] location] ∧
        ∀ key, attributes.get? key = (first :: rest).reverse.lookup key := by
  refine ⟨statements_block b (by simp) h, fun name hname => ?_⟩
  exact statements_block b (by simpa using hname) h

/-- Attributes of which the first and the last have the same key. -/
def samplePairs : List (String × String) := [("lang", "en"), ("title", "\\\""), ("lang", "de")]

theorem first_key_is_name_sample : (∀ e ∈ samplePairs, Writable e) ∧
    ∃ attributes location, (parseSource (Block.config.text none samplePairs)).statements =
        [.construct (.plain .config) "lang" attributes [] location] ∧
      ∀ key, attributes.get? key = [("lang", "de"), ("title", "\\\"")].lookup key := by
  have hpairs : ∀ e ∈ samplePairs, Writable e := by decide +kernel
  exact ⟨hpairs, (first_key_is_name .config _ _ hpairs).1⟩

/-- A page with a title and no name is a page called `title`. -/
theorem title_taken_for_name :
    ¬∃ attributes children location, (parseSource "page title=\"x\" \x7b \x7d").statements =
        [.construct (.plain .page) "" attributes children location] ∧
      attributes.get? "title" = some "x" := by
  have hname : (parseSource "page title=\"x\" \x7b \x7d").statements.map Node.name? =
      [some "title"] := by
    decide +kernel
  rintro ⟨attributes, children, location, hstatements, -⟩
  simp [hstatements, Node.name?] at hname

end Program

end Folio
