import Folio.Proofs.Segments
import Mathlib.Algebra.Group.Nat.Defs

/-! Nothing of a source is lost in its tokens but characters that start none, and every token stands
where it says. Lines and columns are words of 32 bits; they agree with the true numbers as long as the
source is shorter than what a word can count. -/

namespace Folio

namespace Location

/-- The number of the line in which a text ends. -/
def lineAfter (before : List Char) : Nat := 1 + before.count '\n'

/-- The column right after a text. -/
def columnAfter (before : List Char) : Nat := 1 + (before.reverse.takeWhile (· ≠ '\n')).length

/-- Whether a place is the one right after a text. -/
def Follows (place : Location) (before : List Char) : Prop :=
  place.line.toNat = lineAfter before ∧ place.column.toNat = columnAfter before

theorem start_follows : start.Follows [] :=
  ⟨rfl, rfl⟩

theorem lineAfter_le (before : List Char) : lineAfter before ≤ 1 + before.length :=
  Nat.add_le_add_left List.count_le_length 1

theorem columnAfter_le (before : List Char) : columnAfter before ≤ 1 + before.length := by
  have h := (List.takeWhile_sublist (l := before.reverse) (· ≠ '\n')).length_le
  simp only [List.length_reverse] at h
  exact Nat.add_le_add_left h 1

theorem lineAfter_concat (before : List Char) (c : Char) :
    lineAfter (before ++ [c]) = lineAfter before + if c = '\n' then 1 else 0 := by
  simp [lineAfter, List.count_singleton, Nat.add_assoc]

theorem columnAfter_concat (before : List Char) (c : Char) :
    columnAfter (before ++ [c]) = if c = '\n' then 1 else columnAfter before + 1 := by
  by_cases h : c = '\n' <;> simp [columnAfter, h, Nat.add_assoc]

/-- The next number of a word that is not full. -/
theorem toNat_succ {w : UInt32} (h : w.toNat + 1 < 2 ^ 32) : (w + 1).toNat = w.toNat + 1 := by
  rw [UInt32.toNat_add]
  exact Nat.mod_eq_of_lt h

/-- One more character moves a place as it moves the true position, unless a counter is full. -/
theorem Follows.step {place : Location} {before : List Char} (h : place.Follows before) (c : Char)
    (hlen : before.length < 2 ^ 32 - 2) : (place.step c).Follows (before ++ [c]) := by
  obtain ⟨hl, hc⟩ := h
  have hle := lineAfter_le before
  have hce := columnAfter_le before
  rw [Follows, lineAfter_concat, columnAfter_concat]
  by_cases hn : c = '\n'
  · simp only [Location.step, hn, ↓reduceIte]
    exact ⟨by rw [toNat_succ (by omega), hl], rfl⟩
  · simp only [Location.step, hn, ↓reduceIte, Nat.add_zero]
    exact ⟨hl, by rw [toNat_succ (by omega), hc]⟩

theorem Follows.advance {place : Location} {before : List Char} (h : place.Follows before)
    (text : List Char) (hlen : before.length + text.length < 2 ^ 32 - 1) :
    (place.advance text).Follows (before ++ text) := by
  induction text generalizing place before with
  | nil => simpa [Location.advance] using h
  | cons c text ih =>
    simp only [List.length_cons] at hlen
    have hs := ih (h.step c (by omega)) (by simp; omega)
    simpa [Location.advance] using hs

end Location

namespace Token

/-- A part of a source as it was tokenized. -/
inductive Piece where
  | token (t : Token)
  | dropped (c : Char)

namespace Piece

def text : Piece → List Char
  | token t => t.text.toList
  | dropped c => [c]

def token? : Piece → Option Token
  | token t => some t
  | dropped _ => none

/-- What is true of a piece that stands after the text `before`. -/
def Sound (before : List Char) : Piece → Prop
  | token t => t.text ≠ "" ∧ t.kind ≠ .eof ∧ t.location.Follows before
  | dropped c => startsToken c = false

end Piece

/-- Segments from a place on. -/
def pieces (place : Location) : List Segment → List Piece
  | [] => []
  | .token kind text :: ss => .token ⟨kind, String.ofList text, place⟩ :: pieces (place.advance text) ss
  | .dropped c :: ss => .dropped c :: pieces (place.step c) ss

theorem pieces_text (place : Location) (ss : List Segment) :
    (pieces place ss).flatMap Piece.text = ss.flatMap Segment.text := by
  induction ss generalizing place with
  | nil => rfl
  | cons s ss ih => cases s <;> simp [pieces, Piece.text, Segment.text, ih]

theorem placed_eq_pieces (place : Location) (ss : List Segment) :
    placed place ss = (pieces place ss).filterMap Piece.token? ++
      [⟨.eof, "", place.advance (ss.flatMap Segment.text)⟩] := by
  induction ss generalizing place with
  | nil => rfl
  | cons s ss ih =>
    cases s <;>
      simp [placed, pieces, Segment.at, Segment.text, Piece.token?, ih, Location.advance,
        List.filterMap_cons]

/-- Every piece is sound after the text of the pieces before it. -/
theorem pieces_sound {place : Location} {before : List Char} {ss : List Segment}
    (hp : place.Follows before) (hs : ∀ s ∈ ss, s.Sound)
    (hlen : before.length + (ss.flatMap Segment.text).length < 2 ^ 32 - 1)
    (left : List Piece) (p : Piece) (right : List Piece)
    (h : pieces place ss = left ++ p :: right) : p.Sound (before ++ left.flatMap Piece.text) := by
  induction ss generalizing place before left with
  | nil => cases left <;> cases h
  | cons s ss ih =>
    obtain ⟨hhead, htail⟩ := List.forall_mem_cons.mp hs
    simp only [List.flatMap_cons, List.length_append] at hlen
    -- Either the piece is the first one, or it stands behind the text of the first one.
    have hnext := fun left h => ih (hp.advance s.text (by omega)) htail (by rw [List.length_append]; omega) left h
    cases s with
    | token kind text =>
      cases left with
      | nil =>
        simp only [pieces, List.nil_append, List.cons.injEq] at h
        obtain ⟨rfl, -⟩ := h
        exact ⟨by simpa using hhead.2, hhead.1, by simpa using hp⟩
      | cons q left =>
        simp only [pieces, List.cons_append, List.cons.injEq] at h
        obtain ⟨rfl, h⟩ := h
        simpa [Segment.text, Piece.text] using hnext left h
    | dropped c =>
      cases left with
      | nil =>
        simp only [pieces, List.nil_append, List.cons.injEq] at h
        obtain ⟨rfl, -⟩ := h
        exact hhead
      | cons q left =>
        simp only [pieces, List.cons_append, List.cons.injEq] at h
        obtain ⟨rfl, h⟩ := h
        simpa [Segment.text, Piece.text] using hnext left h

/-- Without dropped characters, the tokens' texts are all of the text. -/
theorem tokens_text {ps : List Piece} (h : ∀ c, Piece.dropped c ∉ ps) :
    ((ps.filterMap Piece.token?).flatMap fun t => t.text.toList) = ps.flatMap Piece.text := by
  induction ps with
  | nil => rfl
  | cons p ps ih =>
    have ih := ih fun c hc => h c (by simp [hc])
    cases p with
    | token t => simp [Piece.token?, Piece.text, ih]
    | dropped c => exact absurd (by simp) (h c)

/-- A source is cut into these pieces. -/
structure Tokenized (source : String) (ps : List Piece) : Prop where
  text : ps.flatMap Piece.text = source.toList
  sound : ∀ left p right, ps = left ++ p :: right → p.Sound (left.flatMap Piece.text)
  tokens : ∃ last : Location, last.Follows source.toList ∧
    scan source = ps.filterMap Piece.token? ++ [⟨.eof, "", last⟩]
  /-- The counters hold the true numbers wherever they are looked at. -/
  counters : ∀ part, part <+: source.toList → (Location.start.advance part).Follows part
  complete : (∀ c ∈ source.toList, startsToken c = true) →
    String.join ((scan source).map Token.text) = source

/-- A source of fewer than `2 ^ 32 - 1` characters is the texts of its tokens in their order, with
characters between them that can start no token, and each token stands where its first character
does. -/
theorem scan_lossless (source : String) (hlen : source.length < 2 ^ 32 - 1) :
    ∃ ps, Tokenized source ps := by
  have hlen : source.toList.length < 2 ^ 32 - 1 := by simpa [String.length_toList] using hlen
  have htext : (segments source.toList).flatMap Segment.text = source.toList :=
    segments_text source.toList
  have hadvance : ∀ part, part <+: source.toList → (Location.start.advance part).Follows part := by
    intro part hp
    have hle := hp.length_le
    simpa using Location.start_follows.advance part (by simp; omega)
  have hsound := pieces_sound Location.start_follows (segments_sound source.toList)
    (by rwa [htext, List.length_nil, Nat.zero_add])
  have hscan : scan source = (pieces .start (segments source.toList)).filterMap Piece.token? ++
      [⟨.eof, "", Location.start.advance source.toList⟩] := by
    rw [scan_eq, placed_eq_pieces, htext]
  refine ⟨pieces .start (segments source.toList), by rw [pieces_text, htext], by simpa using hsound,
    ⟨_, hadvance _ (List.prefix_refl _), hscan⟩, hadvance, ?_⟩
  intro hstarts
  have hnone : ∀ c, Piece.dropped c ∉ pieces .start (segments source.toList) := by
    intro c hc
    obtain ⟨left, right, he⟩ := List.append_of_mem hc
    have hd := hsound left _ right he
    have hm : c ∈ source.toList := by
      rw [← htext, ← pieces_text .start, he]
      simp [Piece.text]
    rw [Piece.Sound, hstarts c hm] at hd
    cases hd
  apply String.toList_injective
  rw [hscan]
  simp [String.toList_join, tokens_text hnone, pieces_text, htext, List.flatMap_map]

theorem scan_lossless_sample : "a @\n'b".length < 2 ^ 32 - 1 ∧ ∃ ps, Tokenized "a @\n'b" ps :=
  ⟨by decide, scan_lossless "a @\n'b" (by decide)⟩

end Token

end Folio
