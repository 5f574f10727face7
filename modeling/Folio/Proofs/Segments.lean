import Folio.Token.Scan

/-! The tokenizer in two steps: a source is cut into segments, which do not depend on where they stand,
and then every segment that is a token gets its place. -/

namespace Folio.Token

/-- A part of a source: the text of a token, or a character that starts none. -/
inductive Segment where
  | token (kind : Kind) (text : List Char)
  | dropped (c : Char)

def Segment.text : Segment → List Char
  | token _ text => text
  | dropped c => [c]

/-- A source cut into segments. -/
def segments (cs : List Char) : List Segment :=
  match cs with
  | [] => []
  | c :: rest =>
    match lexeme? c rest with
    | none => .dropped c :: segments rest
    | some (kind, n) => .token kind (c :: rest.take n) :: segments (rest.drop n)
termination_by cs.length
decreasing_by all_goals simp; try omega

/-- The token that a segment is, at its place. -/
def Segment.at (place : Location) : Segment → Option Token
  | token kind text => some ⟨kind, String.ofList text, place⟩
  | dropped _ => none

/-- The tokens of segments from a place on, with `eof` after them. -/
def placed (place : Location) : List Segment → List Token
  | [] => [⟨.eof, "", place⟩]
  | s :: ss => (s.at place).toList ++ placed (place.advance s.text) ss

theorem scanFrom_eq (place : Location) (done : List Token) (cs : List Char) :
    scanFrom place done cs = done.reverse ++ placed place (segments cs) := by
  fun_induction scanFrom place done cs with
  | case1 place done => simp [segments, placed]
  | case2 place done c rest h ih =>
    rw [segments, h, ih]
    rfl
  | case3 place done c rest kind n h text ih =>
    rw [segments, h, ih]
    simp [placed, Segment.at, Segment.text, text]

theorem scan_eq (source : String) : scan source = placed .start (segments source.toList) :=
  scanFrom_eq .start [] source.toList

/-- No character is lost or read twice. -/
theorem segments_text (cs : List Char) : (segments cs).flatMap Segment.text = cs := by
  fun_induction segments cs with
  | case1 => rfl
  | case2 c rest h ih => simp [Segment.text, ih]
  | case3 c rest kind n h ih => simp [Segment.text, ih]

/-- Operators and punctuation, by the characters that they start with. -/
def symbolStarts : List Char :=
  ['=', '!', '<', '>', '&', '|', '+', '-', '*', '/', '%', '(', ')', '{', '}', '[', ']', ';', ',',
    '.', ':', '?']

/-- Whether a token can start with a character. -/
def startsToken (c : Char) : Bool :=
  Text.isBlank c || c.isDigit || Text.isLetter c || c == '_' || c == '"' || c == '\'' ||
    c == '\x60' || symbolStarts.contains c

theorem ofChar?_isSome (c : Char) : (Symbol.ofChar? c).isSome = symbolStarts.contains c := by
  unfold Symbol.ofChar?
  split <;> simp_all [symbolStarts]

theorem mem_symbolStarts_of_pair {c d : Char} (h : (Symbol.ofPair? c d).isSome) :
    symbolStarts.contains c = true := by
  unfold Symbol.ofPair? at h
  split at h <;> simp_all [symbolStarts]

theorem longest?_isSome (c : Char) (rest : List Char) :
    (Symbol.longest? c rest).isSome = symbolStarts.contains c := by
  rw [Symbol.longest?]
  cases hp : rest.head?.bind (Symbol.ofPair? c) with
  | none => exact ofChar?_isSome c
  | some s =>
    obtain ⟨d, -, hd⟩ := Option.bind_eq_some_iff.mp hp
    rw [mem_symbolStarts_of_pair (d := d) (by simp [hd])]
    rfl

/-- Whether a token starts with a character does not depend on what comes after it. -/
theorem lexeme?_isSome (c : Char) (rest : List Char) :
    (lexeme? c rest).isSome = startsToken c := by
  unfold lexeme?
  split
  · rename_i h
    subst h
    decide
  split
  · rename_i h
    simp [startsToken, h]
  split
  · rename_i h
    simp only [Bool.and_eq_true, decide_eq_true_eq] at h
    simp [startsToken, h.1, symbolStarts]
  split
  · rename_i h
    simp only [Bool.and_eq_true, decide_eq_true_eq] at h
    simp [startsToken, h.1, symbolStarts]
  split
  · rename_i h
    simp only [Bool.or_eq_true, decide_eq_true_eq] at h
    rcases h with rfl | rfl <;> simp [startsToken]
  split
  · rename_i h
    simp [startsToken, h]
  split
  · rename_i h
    simp [startsToken, h]
  split
  · rename_i h
    simp only [Bool.or_eq_true, decide_eq_true_eq] at h
    rcases h with h | h <;> simp [startsToken, h]
  · rw [Option.isSome_map, longest?_isSome]
    simp_all [startsToken]

theorem lexeme?_kind {c : Char} {rest : List Char} {kind : Kind} {n : Nat}
    (h : lexeme? c rest = some (kind, n)) : kind ≠ .eof := by
  rintro rfl
  unfold lexeme? at h
  repeat' split at h
  all_goals simp at h
  · generalize Keyword.ofSpelling? _ = word at h
    cases word <;> simp at h

/-- What every segment is: a token has a text, and a dropped character can start no token. -/
def Segment.Sound : Segment → Prop
  | token kind text => kind ≠ .eof ∧ text ≠ []
  | dropped c => startsToken c = false

theorem segments_sound (cs : List Char) : ∀ s ∈ segments cs, s.Sound := by
  fun_induction segments cs with
  | case1 => simp
  | case2 c rest h ih =>
    refine List.forall_mem_cons.mpr ⟨?_, ih⟩
    simp [Segment.Sound, ← lexeme?_isSome c rest, h]
  | case3 c rest kind n h ih =>
    refine List.forall_mem_cons.mpr ⟨?_, ih⟩
    exact ⟨lexeme?_kind h, by simp⟩

end Folio.Token
