import Folio.Text.Utf8

/-! Reading the bytes of a text gives the text back, so that texts with the same bytes are the same. -/

namespace Folio.Text

variable {index : Nat} {done : List Char} {a b c d : UInt8} {rest : List UInt8} {w x y z : Nat}

theorem isTail_of_toNat (hb : b.toNat = x + 128) (hx : x < 64) : isTail b = true := by
  simp only [isTail, UInt8.le_iff_toNat_le, hb, UInt8.reduceToNat, Bool.and_eq_true,
    decide_eq_true_eq]
  omega

theorem tailBits_of_toNat (hb : b.toNat = x + 128) (hx : x < 64) : tailBits b = x := by
  rw [tailBits, hb]
  omega

theorem isSecondOfThree_of_toNat (ha : a.toNat = w + 224) (hb : b.toNat = x + 128) (hx : x < 64)
    (hlow : w = 0 → 32 ≤ x) (hgap : w = 13 → x < 32) : isSecondOfThree a b = true := by
  simp only [isSecondOfThree, isTail_of_toNat hb hx, ← UInt8.toNat_inj, UInt8.le_iff_toNat_le, ha,
    hb, UInt8.reduceToNat]
  split
  · simp only [Bool.and_eq_true, decide_eq_true_eq]
    omega
  · split
    · simp only [Bool.and_eq_true, decide_eq_true_eq]
      omega
    · rfl

theorem isSecondOfFour_of_toNat (ha : a.toNat = w + 240) (hb : b.toNat = x + 128) (hx : x < 64)
    (hlow : w = 0 → 16 ≤ x) (hhigh : w = 4 → x < 16) : isSecondOfFour a b = true := by
  simp only [isSecondOfFour, isTail_of_toNat hb hx, ← UInt8.toNat_inj, UInt8.le_iff_toNat_le, ha,
    hb, UInt8.reduceToNat]
  split
  · simp only [Bool.and_eq_true, decide_eq_true_eq]
    omega
  · split
    · simp only [Bool.and_eq_true, decide_eq_true_eq]
      omega
    · rfl

theorem ofUtf8From_one (ha : a.toNat = w) (hw : w < 128) :
    ofUtf8From index done (a :: rest) = ofUtf8From (index + 1) (Char.ofNat w :: done) rest := by
  have h1 : a < 0x80 := by simpa [UInt8.lt_iff_toNat_lt, ha] using hw
  rw [ofUtf8From.eq_def]
  simp only [h1, if_true, ha]

theorem ofUtf8From_two (ha : a.toNat = w + 192) (hb : b.toNat = x + 128) (hw : 2 ≤ w)
    (hw' : w < 32) (hx : x < 64) :
    ofUtf8From index done (a :: b :: rest) =
      ofUtf8From (index + 2) (Char.ofNat (w * 64 + x) :: done) rest := by
  have h1 : ¬a < 0x80 := by simp [UInt8.lt_iff_toNat_lt, ha]
  have h2 : 0xC2 ≤ a ∧ a ≤ 0xDF := by
    simp only [UInt8.le_iff_toNat_le, ha, UInt8.reduceToNat]
    omega
  have hbits : (w + 192) % 32 = w := by omega
  rw [ofUtf8From.eq_def]
  simp [h1, h2, isTail_of_toNat hb hx, tailBits_of_toNat hb hx, ha, hbits]

theorem ofUtf8From_three (ha : a.toNat = w + 224) (hb : b.toNat = x + 128)
    (hc : c.toNat = y + 128) (hw : w < 16) (hx : x < 64) (hy : y < 64)
    (hlow : w = 0 → 32 ≤ x) (hgap : w = 13 → x < 32) :
    ofUtf8From index done (a :: b :: c :: rest) =
      ofUtf8From (index + 3) (Char.ofNat ((w * 64 + x) * 64 + y) :: done) rest := by
  have h1 : ¬a < 0x80 := by simp [UInt8.lt_iff_toNat_lt, ha]
  have h2 : ¬a ≤ 0xDF := by simp [UInt8.le_iff_toNat_le, ha]
  have h3 : 0xE0 ≤ a ∧ a ≤ 0xEF := by
    simp only [UInt8.le_iff_toNat_le, ha, UInt8.reduceToNat]
    omega
  have hbits : (w + 224) % 16 = w := by omega
  rw [ofUtf8From.eq_def]
  simp [h1, h2, h3, isSecondOfThree_of_toNat ha hb hx hlow hgap, isTail_of_toNat hc hy,
    tailBits_of_toNat hb hx, tailBits_of_toNat hc hy, ha, hbits]

theorem ofUtf8From_four (ha : a.toNat = w + 240) (hb : b.toNat = x + 128)
    (hc : c.toNat = y + 128) (hd : d.toNat = z + 128) (hw : w < 5) (hx : x < 64) (hy : y < 64)
    (hz : z < 64) (hlow : w = 0 → 16 ≤ x) (hhigh : w = 4 → x < 16) :
    ofUtf8From index done (a :: b :: c :: d :: rest) =
      ofUtf8From (index + 4) (Char.ofNat (((w * 64 + x) * 64 + y) * 64 + z) :: done) rest := by
  have h1 : ¬a < 0x80 := by simp [UInt8.lt_iff_toNat_lt, ha]
  have h2 : ¬a ≤ 0xDF := by simp [UInt8.le_iff_toNat_le, ha]
  have h3 : ¬a ≤ 0xEF := by simp [UInt8.le_iff_toNat_le, ha]
  have h4 : 0xF0 ≤ a ∧ a ≤ 0xF4 := by
    simp only [UInt8.le_iff_toNat_le, ha, UInt8.reduceToNat]
    omega
  have hbits : (w + 240) % 8 = w := by omega
  rw [ofUtf8From.eq_def]
  simp [h1, h2, h3, h4, isSecondOfFour_of_toNat ha hb hx hlow hhigh, isTail_of_toNat hc hy,
    isTail_of_toNat hd hz, tailBits_of_toNat hb hx, tailBits_of_toNat hc hy,
    tailBits_of_toNat hd hz, ha, hbits]

theorem toNat_ofNat_lt {n : Nat} (h : n < 256) : (UInt8.ofNat n).toNat = n := by
  simpa using h

/-- The bytes of a character are read as that character, whatever stands around them. -/
theorem ofUtf8From_char (c : Char) :
    ∃ next, ofUtf8From index done (String.utf8EncodeChar c ++ rest) =
      ofUtf8From next (c :: done) rest := by
  have hvalid : c.toNat < 0xD800 ∨ 0xDFFF < c.toNat ∧ c.toNat < 0x110000 := c.valid
  conv => enter [1, next, 2, 2, 1]; rw [← Char.ofNat_toNat c]
  rw [String.utf8EncodeChar.eq_1]
  change c.val.toNat < _ ∨ _ < c.val.toNat ∧ c.val.toNat < _ at hvalid
  simp only [Char.toNat]
  generalize c.val.toNat = v at hvalid ⊢
  split
  · exact ⟨_, ofUtf8From_one (toNat_ofNat_lt (by omega)) (by omega)⟩
  split
  · have hv : v = v / 64 % 32 * 64 + v % 64 := by omega
    refine ⟨index + 2, ?_⟩
    conv => rhs; rw [hv]
    exact ofUtf8From_two (toNat_ofNat_lt (by omega)) (toNat_ofNat_lt (by omega)) (by omega)
      (by omega) (by omega)
  split
  · have hv : v = (v / 4096 % 16 * 64 + v / 64 % 64) * 64 + v % 64 := by omega
    refine ⟨index + 3, ?_⟩
    conv => rhs; rw [hv]
    exact ofUtf8From_three (toNat_ofNat_lt (by omega)) (toNat_ofNat_lt (by omega))
      (toNat_ofNat_lt (by omega)) (by omega) (by omega) (by omega) (by omega) (by omega)
  · have hv : v = ((v / 262144 % 8 * 64 + v / 4096 % 64) * 64 + v / 64 % 64) * 64 + v % 64 := by
      omega
    refine ⟨index + 4, ?_⟩
    conv => rhs; rw [hv]
    exact ofUtf8From_four (toNat_ofNat_lt (by omega)) (toNat_ofNat_lt (by omega))
      (toNat_ofNat_lt (by omega)) (toNat_ofNat_lt (by omega)) (by omega) (by omega) (by omega)
      (by omega) (by omega) (by omega)

theorem ofUtf8From_chars (cs : List Char) :
    ofUtf8From index done (cs.flatMap String.utf8EncodeChar) = .ok (done.reverse ++ cs) := by
  induction cs generalizing index done with
  | nil => simp [ofUtf8From]
  | cons c cs ih =>
    obtain ⟨next, hnext⟩ := @ofUtf8From_char index done (cs.flatMap String.utf8EncodeChar) c
    rw [List.flatMap_cons, hnext, ih]
    simp

theorem ofUtf8_utf8 (s : String) : ofUtf8 (utf8 s) = .ok s := by
  simp [ofUtf8, utf8, ofUtf8From_chars, Except.map]

theorem utf8_injective {s t : String} (h : utf8 s = utf8 t) : s = t := by
  have hst : Except.ok s = (Except.ok t : Except Utf8Fault String) := by
    rw [← ofUtf8_utf8, h, ofUtf8_utf8]
  exact Except.ok.inj hst

end Folio.Text
