import Folio.Proofs.Lossless
import Mathlib.Data.List.Induction

/-! The tokens of a source stand one after the other. Positions are lines and columns as plain
numbers; a place holds them in words of 32 bits, which may wrap around. -/

namespace Folio

instance : LT Location := ⟨fun a b => a.line < b.line ∨ a.line = b.line ∧ a.column < b.column⟩

/-- A line and a column, counted from one and without a bound. -/
structure Position where
  line : Nat
  column : Nat

namespace Position
open Location

instance : LT Position := ⟨fun p q => p.line < q.line ∨ p.line = q.line ∧ p.column < q.column⟩

theorem lt_def {p q : Position} :
    p < q ↔ p.line < q.line ∨ p.line = q.line ∧ p.column < q.column := Iff.rfl

theorem lt_trans {p q r : Position} (h : p < q) (h' : q < r) : p < r := by
  rw [lt_def] at *
  omega

/-- The position right after a text. -/
def after (text : List Char) : Position := ⟨lineAfter text, columnAfter text⟩

/-- The place that is noted for a position. -/
def location (p : Position) : Location := ⟨UInt32.ofNat p.line, UInt32.ofNat p.column⟩

theorem after_concat_lt (text : List Char) (c : Char) : after text < after (text ++ [c]) := by
  rw [lt_def, after, after, lineAfter_concat, columnAfter_concat]
  by_cases h : c = '\n'
  · left
    simp [h]
  · right
    simp [h]

theorem after_lt (text : List Char) (c : Char) (more : List Char) :
    after text < after (text ++ c :: more) := by
  induction more generalizing text c with
  | nil => exact after_concat_lt text c
  | cons d more ih =>
    have hnext := ih (text ++ [c]) d
    rw [List.append_assoc] at hnext
    exact lt_trans (after_concat_lt text c) hnext

/-- The counters agree with the true numbers, up to what a word can hold. -/
theorem advance_start (text : List Char) : start.advance text = (after text).location := by
  induction text using List.reverseRecOn with
  | nil => rfl
  | append_singleton text c ih =>
    have hstep : start.advance (text ++ [c]) = (start.advance text).step c := by
      simp [Location.advance]
    rw [hstep, ih, location, location, after, after, lineAfter_concat, columnAfter_concat,
      Location.step]
    by_cases h : c = '\n' <;> simp [h]

theorem location_lt {p q : Position} (h : p < q) (hp : p.line < 2 ^ 32 ∧ p.column < 2 ^ 32)
    (hq : q.line < 2 ^ 32 ∧ q.column < 2 ^ 32) : p.location < q.location := by
  have hword {n : Nat} (hn : n < 2 ^ 32) : (UInt32.ofNat n).toNat = n := UInt32.toNat_ofNat_of_lt hn
  change UInt32.ofNat p.line < UInt32.ofNat q.line ∨
    UInt32.ofNat p.line = UInt32.ofNat q.line ∧ UInt32.ofNat p.column < UInt32.ofNat q.column
  rw [UInt32.lt_iff_toNat_lt, UInt32.lt_iff_toNat_lt, hword hp.1, hword hp.2, hword hq.1, hword hq.2]
  rcases h with h | ⟨h, h'⟩
  · exact .inl h
  · exact .inr ⟨by rw [h], h'⟩

end Position

namespace Token

/-- The texts before the tokens of segments, which come after `before`. -/
def textsBefore (before : List Char) : List Segment → List (List Char)
  | [] => [before]
  | .token _ text :: ss => before :: textsBefore (before ++ text) ss
  | .dropped c :: ss => textsBefore (before ++ [c]) ss

theorem advance_append (before text : List Char) :
    (Location.start.advance before).advance text = Location.start.advance (before ++ text) := by
  simp [Location.advance]

theorem location_placed (before : List Char) (ss : List Segment) :
    (placed (Location.start.advance before) ss).map Token.location =
      (textsBefore before ss).map Location.start.advance := by
  induction ss generalizing before with
  | nil => rfl
  | cons s ss ih =>
    cases s with
    | token kind text =>
      simp [placed, textsBefore, Segment.at, Segment.text, advance_append, ih]
    | dropped c => simp [placed, textsBefore, Segment.at, Segment.text, advance_append, ih]

theorem mem_textsBefore {before text : List Char} {ss : List Segment}
    (h : text ∈ textsBefore before ss) :
    before <+: text ∧ text <+: before ++ ss.flatMap Segment.text := by
  induction ss generalizing before with
  | nil =>
    rw [textsBefore, List.mem_singleton] at h
    simp [h]
  | cons s ss ih =>
    cases s with
    | token kind word =>
      rcases List.mem_cons.mp h with rfl | h
      · exact ⟨List.prefix_refl text, List.prefix_append text _⟩
      · obtain ⟨hb, ht⟩ := ih h
        exact ⟨(List.prefix_append before word).trans hb, by simpa [Segment.text] using ht⟩
    | dropped c =>
      obtain ⟨hb, ht⟩ := ih h
      exact ⟨(List.prefix_append before [c]).trans hb, by simpa [Segment.text] using ht⟩

/-- Each token stands after the ones before it, since none of them is empty. -/
theorem textsBefore_pairwise {ss : List Segment} (hs : ∀ s ∈ ss, s.Sound) (before : List Char) :
    ((textsBefore before ss).map Position.after).Pairwise (· < ·) := by
  induction ss generalizing before with
  | nil => simp [textsBefore]
  | cons s ss ih =>
    obtain ⟨hhead, htail⟩ := List.forall_mem_cons.mp hs
    cases s with
    | token kind text =>
      rw [textsBefore, List.map_cons, List.pairwise_cons]
      refine ⟨?_, ih htail (before ++ text)⟩
      intro p hp
      obtain ⟨later, hl, rfl⟩ := List.mem_map.mp hp
      obtain ⟨more, rfl⟩ := (mem_textsBefore hl).1
      cases text with
      | nil => exact absurd rfl hhead.2
      | cons c text =>
        rw [List.append_assoc]
        exact Position.after_lt before c (text ++ more)
    | dropped c => exact ih htail (before ++ [c])

/-- Places in a source, one after the other. Each is that of a position in the text, and the positions
grow. So do the places, as long as the text is shorter than what a word can count. -/
def InOrder (source : String) (locations : List Location) : Prop :=
  ∃ places : List Position, places.Pairwise (· < ·) ∧ locations = places.map Position.location ∧
    (∀ p ∈ places, ∃ before, before <+: source.toList ∧ p = Position.after before) ∧
    (source.length < 2 ^ 32 - 1 → locations.Pairwise (· < ·))

theorem fits_of_isPrefix {source : String} {before : List Char} (h : before <+: source.toList)
    (hlength : source.length < 2 ^ 32 - 1) :
    (Position.after before).line < 2 ^ 32 ∧ (Position.after before).column < 2 ^ 32 := by
  have hle : before.length ≤ source.length := by simpa [String.length_toList] using h.length_le
  have hline := Location.lineAfter_le before
  have hcolumn := Location.columnAfter_le before
  simp only [Position.after]
  omega

theorem inOrder_of_positions {source : String} {places : List Position}
    (hgrow : places.Pairwise (· < ·))
    (htexts : ∀ p ∈ places, ∃ before, before <+: source.toList ∧ p = Position.after before) :
    InOrder source (places.map Position.location) := by
  refine ⟨places, hgrow, rfl, htexts, ?_⟩
  intro hlength
  rw [List.pairwise_map]
  refine hgrow.imp_of_mem ?_
  intro p q hp hq hlt
  obtain ⟨before, hbefore, rfl⟩ := htexts p hp
  obtain ⟨later, hlater, rfl⟩ := htexts q hq
  exact Position.location_lt hlt (fits_of_isPrefix hbefore hlength) (fits_of_isPrefix hlater hlength)

theorem InOrder.sublist {source : String} {locations chosen : List Location}
    (h : InOrder source locations) (hs : chosen.Sublist locations) : InOrder source chosen := by
  obtain ⟨places, hgrow, rfl, htexts, -⟩ := h
  obtain ⟨kept, hkept, rfl⟩ := List.sublist_map_iff.mp hs
  refine inOrder_of_positions (hgrow.sublist hkept) ?_
  intro p hp
  exact htexts p (hkept.subset hp)

/-- The tokens of a source stand one after the other. -/
theorem inOrder_scan (source : String) : InOrder source ((scan source).map Token.location) := by
  have hlocations : (scan source).map Token.location =
      ((textsBefore [] (segments source.toList)).map Position.after).map Position.location := by
    rw [scan_eq, List.map_map]
    refine (location_placed [] (segments source.toList)).trans ?_
    exact List.map_congr_left fun text _ => Position.advance_start text
  rw [hlocations]
  refine inOrder_of_positions (textsBefore_pairwise (segments_sound source.toList) []) ?_
  intro p hp
  obtain ⟨before, hb, rfl⟩ := List.mem_map.mp hp
  have hprefix := (mem_textsBefore hb).2
  rw [List.nil_append, segments_text] at hprefix
  exact ⟨before, hprefix, rfl⟩

end Token

end Folio
