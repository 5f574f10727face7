import Folio.Proofs.Layout

/-! The tokenizer can be started anew wherever a token or a dropped character starts: what comes before
has the tokens that it has alone, and so has what comes behind, but for the places. -/

namespace Folio

namespace Location

/-- Where a place of a text stands if the text starts at `origin`. Only in the first line do columns
move. -/
def shift (origin place : Location) : Location where
  line := .ofNat (place.line.toNat + origin.line.toNat - 1)
  column :=
    if place.line = 1 then .ofNat (place.column.toNat + origin.column.toNat - 1) else place.column

/-- The same in plain numbers, so that no counter has wrapped around. -/
structure Shifted (origin place moved : Location) : Prop where
  line : moved.line.toNat = place.line.toNat + origin.line.toNat - 1
  column : moved.column.toNat =
    if place.line = 1 then place.column.toNat + origin.column.toNat - 1 else place.column.toNat

theorem Shifted.shift_eq {origin place moved : Location} (h : Shifted origin place moved) :
    origin.shift place = moved := by
  have hline := UInt32.ofNat_toNat (x := moved.line)
  have hcolumn := UInt32.ofNat_toNat (x := moved.column)
  rw [h.line] at hline
  rw [h.column] at hcolumn
  rw [shift, hline]
  by_cases hone : place.line = 1
  · simp only [hone, if_true] at hcolumn ⊢
    rw [hcolumn]
  · simp only [hone, if_false, UInt32.ofNat_toNat] at hcolumn ⊢
    rw [hcolumn]

theorem lineAfter_append (before text : List Char) :
    lineAfter (before ++ text) = lineAfter text + lineAfter before - 1 := by
  simp only [lineAfter, List.count_append]
  omega

theorem columnAfter_append (before text : List Char) :
    columnAfter (before ++ text) =
      if lineAfter text = 1 then columnAfter text + columnAfter before - 1 else columnAfter text := by
  induction text using List.reverseRecOn with
  | nil => simp [lineAfter, columnAfter]
  | append_singleton text c ih =>
    rw [← List.append_assoc, columnAfter_concat, columnAfter_concat, lineAfter_concat, ih]
    have hline : 1 ≤ lineAfter text := Nat.le_add_right 1 _
    have hcolumn : 1 ≤ columnAfter text := Nat.le_add_right 1 _
    by_cases hc : c = '\n'
    · simp [hc]
      omega
    · simp only [hc, if_false, Nat.add_zero]
      split
      · omega
      · rfl

/-- As long as a word can count its characters, a text moves on as its second part does, seen from
where its first part ends. -/
theorem shifted_advance (before text : List Char)
    (hlen : before.length + text.length < 2 ^ 32 - 1) :
    Shifted (start.advance before) (start.advance text) (start.advance (before ++ text)) := by
  have hb := start_follows.advance before (by simp; omega)
  have ht := start_follows.advance text (by simp; omega)
  have hbt := start_follows.advance (before ++ text) (by simp; omega)
  rw [List.nil_append] at hb ht hbt
  have hone : (start.advance text).line = 1 ↔ lineAfter text = 1 := by
    rw [← ht.1, ← UInt32.toNat_inj]
    rfl
  refine ⟨?_, ?_⟩
  · rw [hbt.1, ht.1, hb.1, lineAfter_append]
  · simp only [hone, hbt.2, ht.2, hb.2, columnAfter_append]

end Location

namespace Token

section Cuts
variable {kind : Kind} {text rest : List Char} {left right : List Segment}

/-- A token is the same where the text ends right behind it. -/
theorem Lexeme.at_end (h : Lexeme kind text rest) : Lexeme kind text [] := by
  have hends {p : Char → Bool} {run : List Char} (h : LongestRun p run rest) :
      LongestRun p run [] :=
    ⟨h.inside, nofun⟩
  cases h with
  | newline => exact .newline []
  | whitespace hne h => exact .whitespace hne (hends h)
  | lineComment h => exact .lineComment (hends h)
  | blockComment h =>
    cases h with
    | closed h => exact .blockComment (.closed h [])
    | unclosed h => exact .blockComment (.unclosed h)
  | string hq h =>
    cases h with
    | closed h => exact .string hq (.closed h [])
    | unclosed h => exact .string hq (.unclosed h)
    | escaping h => exact .string hq (.escaping h)
  | template h =>
    cases h with
    | closed h => exact .template (.closed h [])
    | unclosed h => exact .template (.unclosed h)
    | escaping h => exact .template (.escaping h)
  | number hc h => exact .number hc (hends h)
  | keyword k hc h hk => exact .keyword k hc (hends h) hk
  | identifier hc h hk => exact .identifier hc (hends h) hk
  | symbol hs h hc =>
    -- What a symbol alone starts with, it starts with in front of more as well.
    have hmore {word : List Char} (hp : word <+: text ++ []) : word <+: text ++ rest :=
      hp.trans (by simp)
    refine .symbol hs ⟨hs ▸ List.prefix_append _ _, fun s hp => h.longest s (hmore hp)⟩ ?_
    exact fun hp => hc (hp.imp hmore hmore)

/-- Segments that a text is cut into are those that their own text is cut into, up to any of them. -/
theorem Cut.ahead (h : Cut (left ++ right)) : Cut left := by
  induction left with
  | nil => simp [Cut, segments]
  | cons s left ih =>
    rw [List.cons_append] at h
    cases s with
    | dropped c =>
      obtain ⟨hc, hcut⟩ := h.dropped
      rw [Cut, List.flatMap_cons, Segment.text, List.singleton_append, segments_dropped hc, ih hcut]
    | token kind text =>
      obtain ⟨hlex, hcut⟩ := h.token
      have hleft : Lexeme kind text (left.flatMap Segment.text) := by
        rw [List.flatMap_append] at hlex
        -- Either the text ends behind the token now, or the next character is the one it was.
        cases hl : left.flatMap Segment.text with
        | nil => exact hlex.at_end
        | cons d more =>
          rw [hl, List.cons_append] at hlex
          exact hlex.follow (.inl rfl)
      rw [Cut, List.flatMap_cons, Segment.text, segments_token hleft, ih hcut]

theorem placed_append (place : Location) (left : List Segment) :
    ∃ before, ∀ right, placed place (left ++ right) =
      before ++ placed (place.advance (left.flatMap Segment.text)) right := by
  induction left generalizing place with
  | nil => exact ⟨[], fun right => rfl⟩
  | cons s left ih =>
    obtain ⟨before, h⟩ := ih (place.advance s.text)
    refine ⟨(s.at place).toList ++ before, fun right => ?_⟩
    rw [List.cons_append, placed, h, List.append_assoc, List.flatMap_cons]
    simp [Location.advance]

/-- Segments behind a text have their tokens where they have them alone, seen from its end. -/
theorem placed_shift (before text : List Char) (ss : List Segment)
    (hlen : before.length + text.length + (ss.flatMap Segment.text).length < 2 ^ 32 - 1) :
    placed (Location.start.advance (before ++ text)) ss =
      (placed (Location.start.advance text) ss).map
        (relocate (Location.start.advance before).shift) := by
  induction ss generalizing text with
  | nil =>
    have hplace := (Location.shifted_advance before text (by omega)).shift_eq
    simp [placed, relocate, hplace]
  | cons s ss ih =>
    simp only [List.flatMap_cons, List.length_append] at hlen
    have hplace := (Location.shifted_advance before text (by omega)).shift_eq
    have hnext := ih (text ++ s.text) (by rw [List.length_append]; omega)
    rw [placed, placed, advance_append, advance_append, List.append_assoc, hnext, List.map_append]
    cases s with
    | dropped c => rfl
    | token kind word => simp [Segment.at, relocate, hplace]

end Cuts

/-- The offsets from `offset` on at which segments start, and at which the last one ends. -/
def boundaries (offset : Nat) : List Segment → List Nat
  | [] => [offset]
  | s :: ss => offset :: boundaries (offset + s.text.length) ss

theorem exists_boundary {offset k : Nat} {ss : List Segment} (hk : k ∈ boundaries offset ss) :
    ∃ left right, ss = left ++ right ∧ offset + (left.flatMap Segment.text).length = k := by
  induction ss generalizing offset with
  | nil => exact ⟨[], [], rfl, (List.mem_singleton.mp hk).symm⟩
  | cons s ss ih =>
    rcases List.mem_cons.mp hk with rfl | hk
    · exact ⟨[], s :: ss, rfl, rfl⟩
    · obtain ⟨left, right, rfl, hleft⟩ := ih hk
      refine ⟨s :: left, right, rfl, ?_⟩
      rw [← hleft, List.flatMap_cons, List.length_append, Nat.add_assoc]

theorem exists_location {cs : List Char} {t : Token} (ht : t ∈ placed .start (segments cs)) :
    ∃ text, text <+: cs ∧ t.location = Location.start.advance text := by
  have hmem : t.location ∈ (placed (Location.start.advance []) (segments cs)).map Token.location :=
    List.mem_map_of_mem ht
  rw [location_placed] at hmem
  obtain ⟨text, htext, hplace⟩ := List.mem_map.mp hmem
  have hprefix := (mem_textsBefore htext).2
  rw [List.nil_append, segments_text] at hprefix
  exact ⟨text, hprefix, hplace.symm⟩

/-- A source of fewer than `2 ^ 32 - 1` characters may be cut wherever a token or a dropped character
starts. Its tokens are those of the first part but for the end, and those of the second part, seen
from the place of that end. -/
theorem scan_split (source : String) (k : Nat) (hlen : source.length < 2 ^ 32 - 1)
    (hk : k ∈ boundaries 0 (segments source.toList)) :
    ∃ before origin,
      scan (String.ofList (source.toList.take k)) = before ++ [⟨.eof, "", origin⟩] ∧
      scan source = before ++
        (scan (String.ofList (source.toList.drop k))).map (relocate origin.shift) ∧
      ∀ t ∈ scan (String.ofList (source.toList.drop k)),
        Location.Shifted origin t.location (origin.shift t.location) := by
  obtain ⟨left, right, hss, hleft⟩ := exists_boundary hk
  have hcut : Cut (left ++ right) := hss ▸ cut_segments source.toList
  have hsource : source.toList = left.flatMap Segment.text ++ right.flatMap Segment.text := by
    rw [← List.flatMap_append, ← hss, segments_text]
  have hlength : (left.flatMap Segment.text).length + (right.flatMap Segment.text).length <
      2 ^ 32 - 1 := by
    rw [← List.length_append, ← hsource, String.length_toList]
    exact hlen
  rw [Nat.zero_add] at hleft
  have htake : source.toList.take k = left.flatMap Segment.text := by
    rw [hsource, ← hleft, List.take_left]
  have hdrop : source.toList.drop k = right.flatMap Segment.text := by
    rw [hsource, ← hleft, List.drop_left]
  have hahead : segments (left.flatMap Segment.text) = left := hcut.ahead
  have hbehind : segments (right.flatMap Segment.text) = right := hcut.behind
  obtain ⟨before, hplaced⟩ := placed_append .start left
  refine ⟨before, Location.start.advance (left.flatMap Segment.text), ?_, ?_, ?_⟩
  · have hend := hplaced []
    rw [List.append_nil] at hend
    rw [htake, scan_eq, String.toList_ofList, hahead, hend]
    rfl
  · have hshift := placed_shift (left.flatMap Segment.text) [] right (by simpa using hlength)
    rw [List.append_nil] at hshift
    rw [hdrop, scan_eq, scan_eq, String.toList_ofList, hss, hbehind, hplaced, hshift]
    rfl
  · intro t ht
    rw [hdrop, scan_eq, String.toList_ofList] at ht
    obtain ⟨text, hprefix, hplace⟩ := exists_location ht
    have hle := hprefix.length_le
    have hshifted := Location.shifted_advance (left.flatMap Segment.text) text (by omega)
    rw [hplace, hshifted.shift_eq]
    exact hshifted

/-- A cut behind a comment that goes over two lines, in front of a character that is dropped. -/
theorem scan_split_sample :
    "a /*\n*/@'b".length < 2 ^ 32 - 1 ∧ 7 ∈ boundaries 0 (segments "a /*\n*/@'b".toList) ∧
      ∃ before origin,
        scan (String.ofList ("a /*\n*/@'b".toList.take 7)) = before ++ [⟨.eof, "", origin⟩] ∧
        scan "a /*\n*/@'b" = before ++
          (scan (String.ofList ("a /*\n*/@'b".toList.drop 7))).map (relocate origin.shift) ∧
        ∀ t ∈ scan (String.ofList ("a /*\n*/@'b".toList.drop 7)),
          Location.Shifted origin t.location (origin.shift t.location) := by
  have hlen : "a /*\n*/@'b".length < 2 ^ 32 - 1 := by decide
  have hk : 7 ∈ boundaries 0 (segments "a /*\n*/@'b".toList) := by decide +kernel
  exact ⟨hlen, hk, scan_split _ 7 hlen hk⟩

end Token

end Folio
