import Folio.Proofs.Segments
import Mathlib.Data.List.Infix

/-! What tokens are spelled with: classes of characters that have none in common, reserved words,
and symbols. -/

namespace Folio

namespace Text
variable {c : Char}

theorem Ranges.disjoint {a b : Ranges}
    (h : a.all (fun r => b.all fun s => r.2 < s.1 || s.2 < r.1) = true)
    (ha : a.contains c = true) : b.contains c = false := by
  simp only [Ranges.contains, List.any_eq_true, List.any_eq_false, List.all_eq_true,
    Bool.and_eq_true, Bool.or_eq_true, decide_eq_true_eq] at *
  obtain ⟨r, hr, hrc⟩ := ha
  intro s hs hsc
  have hapart := h r hr s hs
  omega

theorem isBlank_iff : isBlank c = true ↔
    c.toNat = 32 ∨ 9 ≤ c.toNat ∧ c.toNat ≤ 13 ∨ 128 ≤ c.toNat ∧ blanks.contains c = true := by
  have hspace : c = ' ' ↔ c.toNat = 32 := by
    rw [← Char.toNat_inj]
    rfl
  unfold isBlank
  split
  · simp only [hspace, Bool.or_eq_true, beq_iff_eq, Bool.and_eq_true, decide_eq_true_eq]
    omega
  · constructor
    · intro hb
      exact .inr (.inr ⟨by omega, hb⟩)
    · rintro (h | h | ⟨-, hb⟩)
      · omega
      · omega
      · exact hb

theorem isDigit_iff : c.isDigit = true ↔ 48 ≤ c.toNat ∧ c.toNat ≤ 57 := by
  simp only [Char.isDigit, Bool.and_eq_true, decide_eq_true_eq, ge_iff_le, UInt32.le_iff_toNat_le]
  rfl

theorem isAlpha_iff : c.isAlpha = true ↔
    65 ≤ c.toNat ∧ c.toNat ≤ 90 ∨ 97 ≤ c.toNat ∧ c.toNat ≤ 122 := by
  have hclass : c.isAlpha = (decide (65 ≤ c.val ∧ c.val ≤ 90) || (97 ≤ c.val && c.val ≤ 122)) := rfl
  simp only [hclass, Bool.or_eq_true, Bool.and_eq_true, decide_eq_true_eq,
    UInt32.le_iff_toNat_le]
  rfl

/-- A class that is given by a test for ASCII and a table above it has no blanks if neither has. -/
theorem isBlank_of_class {ascii : Char → Bool} {table : Ranges}
    (h : (if c.toNat < 0x80 then ascii c else table.contains c) = true)
    (hascii : ascii c = true → 33 ≤ c.toNat)
    (htable : blanks.all (fun r => table.all fun s => r.2 < s.1 || s.2 < r.1) = true) :
    isBlank c = false := by
  rw [← Bool.not_eq_true, isBlank_iff]
  split at h
  · have hvisible := hascii h
    omega
  · rintro (hb | hb | ⟨-, hb⟩)
    · omega
    · omega
    · rw [Ranges.disjoint htable hb] at h
      cases h

theorem isBlank_of_isLetter (h : isLetter c = true) : isBlank c = false := by
  refine isBlank_of_class h ?_ (by decide +kernel)
  intro ha
  rw [isAlpha_iff] at ha
  omega

theorem isBlank_of_isDigit (h : c.isDigit = true) : isBlank c = false := by
  rw [isDigit_iff] at h
  rw [← Bool.not_eq_true, isBlank_iff]
  omega

theorem isBlank_of_isNumeral (h : isNumeral c = true) : isBlank c = false := by
  refine isBlank_of_class h ?_ (by decide +kernel)
  intro hd
  rw [isDigit_iff] at hd
  omega

theorem isDigit_of_isLetter (h : isLetter c = true) : c.isDigit = false := by
  rw [← Bool.not_eq_true, isDigit_iff]
  unfold isLetter at h
  split at h
  · rw [isAlpha_iff] at h
    omega
  · omega

end Text

namespace Keyword

theorem mem_all (k : Keyword) : k ∈ all := by
  cases k with
  | block b => cases b <;> decide
  | reserved r => cases r <;> decide
  | _ => decide

theorem ofSpelling?_spelling (k : Keyword) : ofSpelling? k.spelling = some k := by
  have h : ∀ k ∈ all, ofSpelling? k.spelling = some k := by decide
  exact h k k.mem_all

theorem ofSpelling?_eq_some {k : Keyword} {word : String} :
    ofSpelling? word = some k ↔ k.spelling = word := by
  constructor
  · intro h
    have hk := List.find?_some (p := fun k : Keyword => k.spelling == word) h
    simpa using hk
  · rintro rfl
    exact ofSpelling?_spelling k

end Keyword

namespace Symbol
variable {c d : Char} {s : Symbol} {rest : List Char}

theorem ofChar?_eq_some : ofChar? c = some s ↔ s.spelling = [c] := by
  constructor
  · intro h
    unfold ofChar? at h
    split at h <;> cases h <;> rfl
  · intro h
    cases s <;> cases h <;> rfl

theorem ofPair?_eq_some : ofPair? c d = some s ↔ s.spelling = [c, d] := by
  constructor
  · intro h
    unfold ofPair? at h
    split at h <;> cases h <;> rfl
  · intro h
    cases s <;> cases h <;> rfl

theorem spelling_cases (s : Symbol) : (∃ c, s.spelling = [c]) ∨ ∃ c d, s.spelling = [c, d] := by
  cases s <;> simp [spelling]

theorem spelling_injective {s s' : Symbol} (h : s.spelling = s'.spelling) : s = s' := by
  obtain ⟨c, hc⟩ | ⟨c, d, hc⟩ := s.spelling_cases
  · exact Option.some.inj ((ofChar?_eq_some.mpr hc).symm.trans (ofChar?_eq_some.mpr (h ▸ hc)))
  · exact Option.some.inj ((ofPair?_eq_some.mpr hc).symm.trans (ofPair?_eq_some.mpr (h ▸ hc)))

theorem isBlank_spelling (s : Symbol) : ∀ c ∈ s.spelling, Text.isBlank c = false := by
  have hall : (s.spelling.all fun c => !Text.isBlank c) = true := by cases s <;> decide
  simpa using hall

/-- A text starts with this symbol, and with no longer one. -/
structure Longest (s : Symbol) (text : List Char) : Prop where
  starts : s.spelling <+: text
  longest : ∀ s' : Symbol, s'.spelling <+: text → s'.spelling.length ≤ s.spelling.length

theorem Longest.unique {s' : Symbol} {text : List Char} (h : Longest s text)
    (h' : Longest s' text) : s = s' := by
  have hle := h.longest s' h'.starts
  have hle' := h'.longest s h.starts
  apply spelling_injective
  exact (List.prefix_of_prefix_length_le h.starts h'.starts hle').eq_of_length (by omega)

theorem longest_of_longest? (h : longest? c rest = some s) : Longest s (c :: rest) := by
  rw [longest?] at h
  cases hp : rest.head?.bind (ofPair? c) with
  | some s' =>
    rw [hp] at h
    cases h
    obtain ⟨d, hd, hs⟩ := Option.bind_eq_some_iff.mp hp
    obtain ⟨more, rfl⟩ := List.head?_eq_some_iff.mp hd
    rw [ofPair?_eq_some] at hs
    refine ⟨⟨more, by rw [hs]; rfl⟩, ?_⟩
    intro s' _
    obtain ⟨x, hx⟩ | ⟨x, y, hx⟩ := s'.spelling_cases <;> simp [hx, hs]
  | none =>
    rw [hp] at h
    have hs := ofChar?_eq_some.mp h
    refine ⟨⟨rest, by rw [hs]; rfl⟩, ?_⟩
    intro s' hs'
    obtain ⟨x, hx⟩ | ⟨x, y, hx⟩ := s'.spelling_cases
    · simp [hx, hs]
    · -- A pair at this place would have been found first.
      rw [hx] at hs'
      obtain ⟨more, hmore⟩ := hs'
      cases hmore
      simp [ofPair?_eq_some.mpr hx] at hp

theorem longest?_eq_some : longest? c rest = some s ↔ Longest s (c :: rest) := by
  refine ⟨longest_of_longest?, ?_⟩
  intro h
  have hc : Token.symbolStarts.contains c = true := by
    obtain ⟨more, hmore⟩ := h.starts
    obtain ⟨x, hx⟩ | ⟨x, y, hx⟩ := s.spelling_cases
    · rw [hx] at hmore
      cases hmore
      rw [← Token.ofChar?_isSome, ofChar?_eq_some.mpr hx]
      rfl
    · rw [hx] at hmore
      cases hmore
      exact Token.mem_symbolStarts_of_pair (d := y) (by simp [ofPair?_eq_some.mpr hx])
  rw [← Token.longest?_isSome c rest, Option.isSome_iff_exists] at hc
  obtain ⟨s', hs'⟩ := hc
  rw [hs', (longest_of_longest? hs').unique h]

end Symbol

end Folio
