import Folio.Proofs.Alphabet
import Folio.Proofs.ElementTags

/-! Characters that end the text around a name. No change of case makes one of them out of another
character, so a name that has none of them has none in any of the forms that it is shown in. -/

namespace Folio.Text

/-- Quotes, braces, ends of lines, and the two that start an escape or are part of each mark of a
comment. -/
def delimiters : List Char :=
  ['"', '\'', '\x60', '\x7b', '\x7d', '\n', '\r', '\u2028', '\u2029', '/', '\\']

/-- A text without any of them. -/
def Clean (s : String) : Prop := ∀ c ∈ s.toList, c ∉ delimiters

theorem not_mem_of_all {cs : List Char} (h : cs.all (fun c => !delimiters.contains c) = true) :
    ∀ c ∈ cs, c ∉ delimiters := by
  simpa using h

theorem clean_empty : Clean "" := by simp [Clean]

theorem Clean.append {s t : String} (hs : Clean s) (ht : Clean t) : Clean (s ++ t) := by
  intro c hc
  rw [String.toList_append, List.mem_append] at hc
  exact hc.elim (hs c) (ht c)

variable {c : Char} {cs : List Char}

theorem toNat_ofNat_cases (n : Nat) : (Char.ofNat n).toNat = n ∨ (Char.ofNat n).toNat = 0 := by
  by_cases h : n.isValidChar
  · rw [show Char.ofNat n = Char.ofNatAux n h from dif_pos h]
    exact .inl rfl
  · rw [show Char.ofNat n = ⟨0, .inl (by decide)⟩ from dif_neg h]
    exact .inr rfl

/-- A case run does not come to a delimiter if the interval that it leads to has none. -/
theorem CaseRun.apply_not_mem {runs : List CaseRun} (hc : c ∉ delimiters)
    (hruns : runs.all (fun r => delimiters.all fun d =>
      decide ((d.toNat : Int) < r.first + r.shift ∨ r.last + r.shift < d.toNat)) = true) :
    CaseRun.apply runs c ∉ delimiters := by
  have hpos : delimiters.all (fun d => decide (0 < d.toNat)) = true := by decide
  unfold CaseRun.apply
  split
  · next r hr =>
    intro hd
    have hcovers := List.find?_some hr
    simp only [covers, Bool.and_eq_true, decide_eq_true_eq] at hcovers
    simp only [List.all_eq_true, decide_eq_true_eq] at hruns hpos
    have hapart := hruns r (List.mem_of_find?_eq_some hr) _ hd
    have hcode := hpos _ hd
    rcases toNat_ofNat_cases (Int.toNat (c.toNat + r.shift)) with hn | hn <;> omega
  · exact hc

theorem forall_ascii {p : Char → Bool} (h : (List.range 128).all (fun n => p (Char.ofNat n)) = true)
    (hc : c.toNat < 128) : p c = true := by
  have hn := List.all_eq_true.mp h c.toNat (List.mem_range.mpr hc)
  rwa [Char.ofNat_toNat] at hn

theorem lower_not_mem (hc : c ∉ delimiters) : ∀ d ∈ lower c, d ∉ delimiters := by
  unfold lower
  split
  · next hascii =>
    have hcase := forall_ascii (c := c)
      (p := fun c => delimiters.contains c || !delimiters.contains c.toLower) (by decide +kernel) hascii
    simpa [hc] using hcase
  · split
    · exact not_mem_of_all (by decide)
    · simpa using CaseRun.apply_not_mem hc (by decide +kernel)

theorem upper_not_mem (hc : c ∉ delimiters) : ∀ d ∈ upper c, d ∉ delimiters := by
  unfold upper
  split
  · next hascii =>
    have hcase := forall_ascii (c := c)
      (p := fun c => delimiters.contains c || !delimiters.contains c.toUpper) (by decide +kernel) hascii
    simpa [hc] using hcase
  · split
    · next codes hcodes =>
      have hall : upperExpansions.all (fun e => (e.2.map Char.ofNat).all fun d =>
          !delimiters.contains d) = true := by decide +kernel
      obtain ⟨before, after, hsplit, -⟩ := List.lookup_eq_some_iff.mp hcodes
      exact not_mem_of_all (List.all_eq_true.mp hall (c.toNat, codes) (by rw [hsplit]; simp))
    · simpa using CaseRun.apply_not_mem hc (by decide +kernel)

theorem lowerFrom_not_mem {before done : List Char} (hdone : ∀ d ∈ done, d ∉ delimiters)
    (hcs : ∀ c ∈ cs, c ∉ delimiters) : ∀ d ∈ lowerFrom before done cs, d ∉ delimiters := by
  induction cs generalizing before done with
  | nil => simpa [lowerFrom] using hdone
  | cons c cs ih =>
    obtain ⟨hc, hcs⟩ := List.forall_mem_cons.mp hcs
    rw [lowerFrom]
    refine ih (fun d hd => ?_) hcs
    rcases List.mem_append.mp hd with hd | hd
    · rw [List.mem_reverse] at hd
      split at hd
      · -- A sigma stays a sigma.
        have hsigma : 'ς' ∉ delimiters ∧ 'σ' ∉ delimiters := by decide
        rw [List.mem_singleton] at hd
        rw [hd]
        split
        · exact hsigma.1
        · exact hsigma.2
      · exact lower_not_mem hc d hd
    · exact hdone d hd

theorem Clean.toLower {s : String} (h : Clean s) : Clean (toLower s) := by
  intro c hc
  rw [Text.toLower, String.toList_ofList] at hc
  exact lowerFrom_not_mem (by simp) h c hc

theorem Clean.capitalize {s : String} (h : Clean s) : Clean (capitalize s) := by
  unfold Text.capitalize
  split
  · exact clean_empty
  · next c cs hs =>
    have hmem := h
    rw [Clean, hs] at hmem
    obtain ⟨hc, hcs⟩ := List.forall_mem_cons.mp hmem
    intro d hd
    rw [String.toList_ofList, List.mem_append] at hd
    exact hd.elim (upper_not_mem hc d) (hcs d)

theorem Clean.elementTag {s : String} (h : Clean s) : Clean (elementTag s) := by
  have hhyphen : '-' ∉ delimiters := by decide
  have hstart : Clean "ema-" := not_mem_of_all (by decide)
  refine hstart.append (Clean.toLower ?_)
  intro c hc
  rw [String.toList_ofList, List.mem_map] at hc
  obtain ⟨a, ha, rfl⟩ := hc
  split
  · exact hhyphen
  · rw [splitHumps_splitAcronyms] at ha
    rcases mem_hyphenate ha with rfl | ha
    · exact hhyphen
    · exact h a ha

end Folio.Text
