import Folio.Json.Record
import Folio.Proofs.Utf8
import Mathlib

/-! Reading back the JSON texts that are written: what a reader makes of the bytes that a value is
written with, in front of any bytes that can follow them. -/

namespace Folio

namespace Text

@[simp]
theorem utf8_append (s t : String) : utf8 (s ++ t) = utf8 s ++ utf8 t := by
  simp [utf8]

end Text

namespace Json

namespace Reader

variable {α β : Type} {rest text text' : List UInt8} {a : α} {b : β}

/-- Before `rest`, the reader takes `text` for `a`. -/
def Reads (r : Reader α) (text : List UInt8) (a : α) (rest : List UInt8) : Prop :=
  ∀ c : Cursor, c.rest = text ++ rest → ∃ c', r c = .ok (a, c') ∧ c'.rest = rest

theorem reads_pure (a : α) (rest : List UInt8) : Reads (pure a) [] a rest :=
  fun c hc => ⟨c, rfl, hc⟩

theorem Reads.bind {r : Reader α} {f : α → Reader β} (h : Reads r text a (text' ++ rest))
    (h' : Reads (f a) text' b rest) : Reads (r >>= f) (text ++ text') b rest := by
  intro c hc
  obtain ⟨c', hr, hc'⟩ := h c (by simpa using hc)
  obtain ⟨c'', hf, hc''⟩ := h' c' hc'
  refine ⟨c'', ?_, hc''⟩
  simp only [Bind.bind, StateT.bind, hr, Except.bind, hf]

theorem Reads.map {r : Reader α} (h : Reads r text a rest) (g : α → β) :
    Reads (r >>= fun x => pure (g x)) text (g a) rest := by
  intro c hc
  obtain ⟨c', hr, hc'⟩ := h c hc
  refine ⟨c', ?_, hc'⟩
  simp only [Bind.bind, StateT.bind, hr, Except.bind]
  rfl

@[simp]
theorem step_rest (c : Cursor) : c.step.rest = c.rest.tail := by
  unfold Cursor.step
  split <;> simp_all

theorem skip_rest {c : Cursor} (h : c.rest = text ++ rest) : (c.skip text).rest = rest := by
  induction text generalizing c with
  | nil => exact h
  | cons x text ih => exact ih (by simp [h])

/-- The byte of a character with a small code. -/
def code (c : Char) : UInt8 := c.toNat.toUInt8

/-- The character that a byte is looked at as. -/
def charOf (x : UInt8) : Char := Char.ofNat x.toNat

theorem charOf_code {c : Char} (h : c.toNat < 256) : charOf (code c) = c := by
  have hx : (code c).toNat = c.toNat := by simpa [code] using h
  rw [charOf, hx, Char.ofNat_toNat]

section Steps

variable {c : Char} {f : Option Char → Reader β} {g : Unit → Reader β}

theorem reads_peek (rest : List UInt8) : Reads peek [] (rest.head?.map charOf) rest :=
  fun cursor hc => ⟨cursor, by simp only [← show cursor.rest = rest from hc]; rfl, hc⟩

theorem Reads.peek (h : Reads (f ((text ++ rest).head?.map charOf)) text b rest) :
    Reads (peek >>= f) text b rest :=
  (reads_peek (text ++ rest)).bind h

theorem Reads.skip {x : UInt8} (h : Reads (g ()) text b rest) :
    Reads (skip >>= g) (x :: text) b rest :=
  fun cursor hc => h cursor.step (by simp [hc])

theorem Reads.next (h : Reads (f (some c)) text b rest) (hc : c.toNat < 256) :
    Reads (next >>= f) (code c :: text) b rest := by
  intro cursor hcur
  have hhead : cursor.rest.head?.map charOf = some c := by simp [hcur, charOf_code hc]
  rw [← hhead] at h
  exact h cursor.step (by simp [hcur])

theorem reads_takeWhile (p : Char → Bool) (h : ∀ x ∈ text, p (charOf x) = true)
    (hr : ∀ x ∈ rest.head?, p (charOf x) = false) :
    Reads (takeWhile p) text (text.map charOf) rest := by
  intro cursor hc
  have ht : cursor.rest.takeWhile (fun x => p (charOf x)) = text := by
    rw [hc, List.takeWhile_append_of_pos h]
    cases rest with
    | nil => simp
    | cons x rest => simp [hr x rfl]
  refine ⟨cursor.skip text, ?_, skip_rest hc⟩
  change Except.ok ((cursor.rest.takeWhile fun x => p (charOf x)).map charOf,
    cursor.skip (cursor.rest.takeWhile fun x => p (charOf x))) = _
  rw [ht]

/-- Characters that are passed over between the parts of a text. -/
def isBlank (c : Char) : Bool := c == ' ' || c == '\n' || c == '\t' || c == '\r'

theorem Reads.past (h : Reads (f (some c)) (code c :: text) b rest) (hc : c.toNat < 256)
    (hb : isBlank c = false) : Reads (peekPastBlanks >>= f) (code c :: text) b rest := by
  have hblank : Reads (takeWhile isBlank) [] [] ([] ++ (code c :: (text ++ rest))) :=
    reads_takeWhile isBlank (by simp) (by simp [charOf_code hc, hb])
  have hpeek : Reads Reader.peek [] (some c) (code c :: (text ++ rest)) := by
    simpa [charOf_code hc] using reads_peek (code c :: (text ++ rest))
  have hpast : Reads peekPastBlanks [] (some c) (code c :: (text ++ rest)) := hblank.bind hpeek
  exact hpast.bind h

end Steps

/-- The bytes of a character that is written as it is. -/
def IsPlain (x : UInt8) : Prop := 0x20 ≤ x ∧ x ≠ 0x22 ∧ x ≠ 0x5C

section Strings

variable {fuel : Nat} {done : List UInt8} {value : List UInt8}

theorem reads_stringBytes_quote : Reads (stringBytes (fuel + 1) done) [code '"'] done.reverse rest :=
  Reads.next (reads_pure _ _) (by decide)

theorem reads_stringBytes_escape {c : Char} (he : Reads escape text c (text' ++ rest))
    (h : Reads (stringBytes fuel ((String.utf8EncodeChar c).reverse ++ done)) text' value rest) :
    Reads (stringBytes (fuel + 1) done) (code '\\' :: (text ++ text')) value rest :=
  Reads.next (he.bind h) (by decide)

theorem reads_stringBytes_plain {x : UInt8} (hx : IsPlain x)
    (h : Reads (stringBytes fuel (x :: done)) text value rest) :
    Reads (stringBytes (fuel + 1) done) (x :: text) value rest := by
  have hx256 : x.toNat < 256 := x.toNat_lt
  have hvalid : x.toNat.isValidChar := .inl (by omega)
  have hn : (charOf x).toNat = x.toNat := by
    simp [charOf, Char.ofNat, Char.toNat, Char.ofNatAux, hvalid]
  have hcode : code (charOf x) = x := by
    rw [code, hn]
    exact UInt8.ofNat_toNat
  rw [← hcode]
  refine Reads.next ?_ (by omega)
  split
  · cases ‹some (charOf x) = none›
  · next heq =>
    rw [← hcode, Option.some.inj heq] at hx
    exact absurd rfl hx.2.1
  · next heq =>
    rw [← hcode, Option.some.inj heq] at hx
    exact absurd rfl hx.2.2
  · next c _ _ heq =>
    obtain rfl := Option.some.inj heq
    have hlow : ¬(charOf x).toNat < 0x20 := by
      have hle := UInt8.le_iff_toNat_le.mp hx.1
      simp only [UInt8.reduceToNat] at hle
      omega
    rw [if_neg hlow]
    rw [← code, hcode]
    exact h

theorem reads_stringBytes_plains {xs : List UInt8} (hx : ∀ x ∈ xs, IsPlain x)
    (h : Reads (stringBytes fuel (xs.reverse ++ done)) text value rest) :
    Reads (stringBytes (fuel + xs.length) done) (xs ++ text) value rest := by
  induction xs generalizing done with
  | nil => exact h
  | cons x xs ih =>
    refine reads_stringBytes_plain (hx x (by simp)) (ih (fun y hy => hx y (by simp [hy])) ?_)
    simpa using h

theorem reads_escape_simple {e c : Char} (he : simpleEscape? e = some c) (hu : e ≠ 'u')
    (h : e.toNat < 256) : Reads escape [code e] c rest := by
  refine Reads.next ?_ h
  split
  · cases ‹some e = none›
  · exact absurd (Option.some.inj ‹_›) hu
  · next heq =>
    obtain rfl := Option.some.inj heq
    simp only [he]
    exact reads_pure c rest

theorem reads_hexUnit {n : Nat} (hl : text.length = 4) (h : hexNumber? (text.map charOf) = some n) :
    Reads hexUnit text n rest := by
  intro cursor hc
  have htake : cursor.rest.take 4 = text := by
    rw [hc, ← hl, List.take_left]
  refine ⟨cursor.skip text, ?_, skip_rest hc⟩
  simp only [hexUnit, bind, StateT.bind, get, getThe, MonadStateOf.get, StateT.get, pure,
    Except.pure, Except.bind, htake, hl]
  change hexNumber? (text.map fun x => Char.ofNat x.toNat) = some n at h
  simp only [h]
  rfl

theorem reads_escape_unicode {n : Nat} (hn : n < 0xD800) (hl : text.length = 4)
    (h : hexNumber? (text.map charOf) = some n) :
    Reads escape (code 'u' :: text) (Char.ofNat n) rest := by
  have hcode : Reads codePoint text n rest := by
    have hlow : (0xDC00 ≤ n && n ≤ 0xDFFF) = false := by
      simp only [Bool.and_eq_false_iff, decide_eq_false_iff_not]
      omega
    have hhigh : (n < 0xD800 || 0xDBFF < n) = true := by
      simp only [Bool.or_eq_true, decide_eq_true_eq]
      omega
    have hunit : Reads hexUnit text n ([] ++ rest) := reads_hexUnit hl h
    rw [← List.append_nil text]
    refine hunit.bind ?_
    simp only [hlow, hhigh]
    exact reads_pure n rest
  exact Reads.next (hcode.map Char.ofNat) (by decide)

/-- A control character is written with a letter or with its code. -/
theorem escaped_control : ∀ n : Fin 32,
    (['n', 'r', 't', 'b', 'f'].any fun e =>
      e ≠ 'u' ∧ e.toNat < 256 ∧ Text.utf8 (escaped (Char.ofNat n)) = [code '\\', code e] ∧
        simpleEscape? e = some (Char.ofNat n)) = true ∨
    (∃ digits ∈ [(Text.utf8 (escaped (Char.ofNat n))).drop 2],
      Text.utf8 (escaped (Char.ofNat n)) = code '\\' :: code 'u' :: digits ∧ digits.length = 4 ∧
        hexNumber? (digits.map charOf) = some n.val) := by
  decide +kernel

theorem isPlain_of_toNat {x : UInt8} (h : 0x20 ≤ x.toNat) (hq : x.toNat ≠ 0x22)
    (hb : x.toNat ≠ 0x5C) : IsPlain x := by
  refine ⟨UInt8.le_iff_toNat_le.mpr h, ?_, ?_⟩
  · rintro rfl
    exact hq rfl
  · rintro rfl
    exact hb rfl

theorem isPlain_utf8EncodeChar {c : Char} (h : 0x20 ≤ c.toNat) (hq : c ≠ '"') (hb : c ≠ '\\') :
    ∀ x ∈ String.utf8EncodeChar c, IsPlain x := by
  have hlong : ∀ n, 0x80 ≤ n → n < 0x100 → IsPlain (UInt8.ofNat n) := by
    intro n hn hn'
    have htn : (UInt8.ofNat n).toNat = n := Text.toNat_ofNat_lt hn'
    exact isPlain_of_toNat (by omega) (by omega) (by omega)
  have hq' : c.toNat ≠ 0x22 := fun hc => hq (Char.toNat_inj.mp hc)
  have hb' : c.toNat ≠ 0x5C := fun hc => hb (Char.toNat_inj.mp hc)
  change 0x20 ≤ c.val.toNat at h
  change c.val.toNat ≠ 0x22 at hq'
  change c.val.toNat ≠ 0x5C at hb'
  rw [String.utf8EncodeChar.eq_1]
  generalize c.val.toNat = v at *
  split
  · have htn : (UInt8.ofNat v).toNat = v := Text.toNat_ofNat_lt (by omega)
    simpa using isPlain_of_toNat (by omega) (by omega) (by omega)
  split
  · simp only [List.mem_cons, List.not_mem_nil, or_false, forall_eq_or_imp, forall_eq]
    exact ⟨hlong _ (by omega) (by omega), hlong _ (by omega) (by omega)⟩
  split
  · simp only [List.mem_cons, List.not_mem_nil, or_false, forall_eq_or_imp, forall_eq]
    exact ⟨hlong _ (by omega) (by omega), hlong _ (by omega) (by omega), hlong _ (by omega) (by omega)⟩
  · simp only [List.mem_cons, List.not_mem_nil, or_false, forall_eq_or_imp, forall_eq]
    exact ⟨hlong _ (by omega) (by omega), hlong _ (by omega) (by omega),
      hlong _ (by omega) (by omega), hlong _ (by omega) (by omega)⟩

/-- An escape is read in one step. -/
theorem reads_stringBytes_escaped {c : Char} {bytes : List UInt8}
    (hc : Text.utf8 (escaped c) = code '\\' :: bytes)
    (he : Reads escape bytes c (text ++ rest)) (hfuel : (Text.utf8 (escaped c)).length ≤ fuel)
    (h : ∀ fuel', fuel ≤ fuel' + (Text.utf8 (escaped c)).length →
      Reads (stringBytes fuel' ((String.utf8EncodeChar c).reverse ++ done)) text value rest) :
    Reads (stringBytes fuel done) (Text.utf8 (escaped c) ++ text) value rest := by
  rw [hc, List.length_cons] at hfuel h
  obtain ⟨fuel, rfl⟩ : ∃ n, fuel = n + 1 := ⟨fuel - 1, by omega⟩
  rw [hc]
  exact reads_stringBytes_escape he (h fuel (by omega))

/-- One character of a string: what follows it may be read with a little less fuel. -/
theorem reads_stringBytes_char (c : Char) (hfuel : (Text.utf8 (escaped c)).length ≤ fuel)
    (h : ∀ fuel', fuel ≤ fuel' + (Text.utf8 (escaped c)).length →
      Reads (stringBytes fuel' ((String.utf8EncodeChar c).reverse ++ done)) text value rest) :
    Reads (stringBytes fuel done) (Text.utf8 (escaped c) ++ text) value rest := by
  by_cases hq : c = '"'
  · subst hq
    have he : Reads escape [code '"'] '"' (text ++ rest) :=
      reads_escape_simple rfl (by decide) (by decide)
    exact reads_stringBytes_escaped (by decide) he hfuel h
  by_cases hb : c = '\\'
  · subst hb
    have he : Reads escape [code '\\'] '\\' (text ++ rest) :=
      reads_escape_simple rfl (by decide) (by decide)
    exact reads_stringBytes_escaped (by decide) he hfuel h
  by_cases hlow : c.toNat < 0x20
  · have hc : Char.ofNat c.toNat = c := Char.ofNat_toNat c
    rcases escaped_control ⟨c.toNat, hlow⟩ with hletter | ⟨digits, -, hbytes, hl, hn⟩
    · obtain ⟨e, -, hfits⟩ := List.any_eq_true.mp hletter
      obtain ⟨hu, hsmall, hbytes, hsimple⟩ := of_decide_eq_true hfits
      rw [hc] at hbytes hsimple
      exact reads_stringBytes_escaped hbytes (reads_escape_simple hsimple hu hsmall) hfuel h
    · rw [hc] at hbytes
      have he : Reads escape (code 'u' :: digits) (Char.ofNat c.toNat) (text ++ rest) :=
        reads_escape_unicode (by omega) hl hn
      rw [hc] at he
      exact reads_stringBytes_escaped hbytes he hfuel h
  · have hplain : Text.utf8 (escaped c) = String.utf8EncodeChar c := by
      have hcontrol : ∀ d : Char, d.toNat < 0x20 → c ≠ d := by
        rintro d hd rfl
        exact hlow hd
      simp [escaped, hq, hb, hlow, hcontrol '\n' (by decide), hcontrol '\r' (by decide),
        hcontrol '\t' (by decide), hcontrol '\x08' (by decide), hcontrol '\x0c' (by decide),
        Text.utf8]
    rw [hplain] at hfuel h ⊢
    obtain ⟨spare, rfl⟩ : ∃ n, fuel = n + (String.utf8EncodeChar c).length :=
      ⟨fuel - (String.utf8EncodeChar c).length, by omega⟩
    exact reads_stringBytes_plains (isPlain_utf8EncodeChar (by omega) hq hb) (h spare (by omega))

/-- The bytes between the quotes of a string. -/
def body (cs : List Char) : List UInt8 := cs.flatMap fun c => Text.utf8 (escaped c)

theorem reads_stringBytes (cs : List Char) (fuel : Nat) (done : List UInt8)
    (hfuel : (body cs).length < fuel) :
    Reads (stringBytes fuel done) (body cs ++ [code '"'])
      (done.reverse ++ cs.flatMap String.utf8EncodeChar) rest := by
  induction cs generalizing fuel done with
  | nil =>
    obtain ⟨fuel, rfl⟩ : ∃ n, fuel = n + 1 := ⟨fuel - 1, by omega⟩
    simpa [body] using reads_stringBytes_quote
  | cons c cs ih =>
    have hlen : (body (c :: cs)).length = (Text.utf8 (escaped c)).length + (body cs).length := by
      simp [body]
    have hread : Reads (stringBytes fuel done) (Text.utf8 (escaped c) ++ (body cs ++ [code '"']))
        (done.reverse ++ (c :: cs).flatMap String.utf8EncodeChar) rest := by
      refine reads_stringBytes_char c (by omega) fun fuel' hfuel' => ?_
      simpa using ih fuel' ((String.utf8EncodeChar c).reverse ++ done) (by omega)
    simpa [body] using hread

theorem utf8_stringText (s : String) :
    Text.utf8 (stringText s) = code '"' :: (body s.toList ++ [code '"']) := by
  have hfold : ∀ (cs : List Char) (out : String),
      Text.utf8 (cs.foldl (fun out c => out ++ escaped c) out) = Text.utf8 out ++ body cs := by
    intro cs
    induction cs with
    | nil => simp [body]
    | cons c cs ih => simp [ih, body]
  have hquote : Text.utf8 "\"" = [code '"'] := by decide
  simp [stringText, hfold, hquote]

theorem reads_string (s : String) : Reads string (body s.toList ++ [code '"']) s rest := by
  intro cursor hc
  have hfuel : (body s.toList).length < cursor.size + 1 := by
    rw [cursor.size_eq, hc]
    simp only [List.length_append]
    omega
  obtain ⟨c', hr, hc'⟩ := reads_stringBytes s.toList (cursor.size + 1) [] hfuel cursor hc
  refine ⟨c', ?_, hc'⟩
  have hs : (Text.ofUtf8 (s.toList.flatMap String.utf8EncodeChar)).toOption.getD "" = s := by
    have := Text.ofUtf8_utf8 s
    rw [Text.utf8] at this
    rw [this]
    rfl
  simp only [List.reverse_nil, List.nil_append] at hr
  simp only [string, remaining, bind, StateT.bind, Except.bind, hr, hs]
  rfl

end Strings

section Values

variable {c : Char}

theorem Reads.start {f : Char → Reader β} (h : Reads (f c) (code c :: text) b rest)
    (hc : c.toNat < 256) (hb : isBlank c = false) :
    Reads (valueStart >>= f) (code c :: text) b rest := by
  rw [valueStart, bind_assoc]
  exact Reads.past (by simpa using h) hc hb

theorem reads_word (cs : List Char) (h : ∀ c ∈ cs, c.toNat < 256) :
    Reads (word cs) (cs.map code) () rest := by
  induction cs with
  | nil => exact reads_pure () rest
  | cons c cs ih =>
    refine Reads.next ?_ (h c (by simp))
    simpa using ih fun d hd => h d (by simp [hd])

theorem reads_bool (v : Bool) :
    Reads bool (Text.utf8 (if v then "true" else "false")) v rest := by
  have ht : Text.utf8 "true" = ['t', 'r', 'u', 'e'].map code := by decide
  have hf : Text.utf8 "false" = ['f', 'a', 'l', 's', 'e'].map code := by decide
  cases v with
  | true =>
    simp only [if_true, ht]
    have hword := @reads_word rest ['t', 'r', 'u', 'e'] (by simp)
    exact Reads.start (hword.map fun _ => true) (by decide) (by decide)
  | false =>
    simp only [Bool.false_eq_true, if_false, hf]
    have hword := @reads_word rest ['f', 'a', 'l', 's', 'e'] (by simp)
    exact Reads.start (hword.map fun _ => false) (by decide) (by decide)

theorem reads_text (expected s : String) : Reads (Reader.text expected) (Text.utf8 (stringText s)) s rest := by
  rw [utf8_stringText]
  exact Reads.start (Reads.skip (reads_string s)) (by decide) (by decide)

/-- The bytes of the items of an array, each after a comma or, the first one, after `before`. -/
def itemsText (before : List UInt8) : List String → List UInt8
  | [] => [code ']']
  | x :: xs => before ++ (Text.utf8 (stringText x) ++ itemsText [code ','] xs)

theorem length_lt_itemsText (before : List UInt8) (xs : List String) :
    xs.length < (itemsText before xs).length := by
  induction xs generalizing before with
  | nil => simp [itemsText]
  | cons x xs ih =>
    have hx := ih [code ',']
    simp only [itemsText, utf8_stringText, List.length_append, List.length_cons]
    omega

theorem Reads.hasFirstItem {f : Bool → Reader β} (h : Reads (f true) (code c :: text) b rest)
    (hc : c.toNat < 256) (hb : isBlank c = false) (hend : c ≠ ']') :
    Reads (hasItem true >>= f) (code c :: text) b rest := by
  rw [hasItem, bind_assoc]
  refine Reads.past ?_ hc hb
  split
  · cases ‹some c = none›
  · exact absurd (Option.some.inj ‹_›) hend
  · simpa using h

theorem Reads.hasItem {f : Bool → Reader β} (h : Reads (f true) (code c :: text) b rest)
    (hc : c.toNat < 256) (hb : isBlank c = false) (hend : c ≠ ']') :
    Reads (hasItem false >>= f) (code ',' :: code c :: text) b rest := by
  rw [Reader.hasItem, bind_assoc]
  refine Reads.past ?_ (by decide) (by decide)
  change Reads ((Reader.skip >>= fun _ => peekPastBlanks >>= _) >>= f) _ _ _
  rw [bind_assoc]
  refine Reads.skip ?_
  rw [bind_assoc]
  refine Reads.past ?_ hc hb
  split
  · cases ‹some c = none›
  · exact absurd (Option.some.inj ‹_›) hend
  · simpa using h

theorem Reads.hasNoItem {f : Bool → Reader β} {isFirst : Bool}
    (h : Reads (f false) (code ']' :: text) b rest) :
    Reads (Reader.hasItem isFirst >>= f) (code ']' :: text) b rest := by
  rw [Reader.hasItem, bind_assoc]
  exact Reads.past (by simpa using h) (by decide) (by decide)

/-- A step of reading an array of texts, for the first item and for the others. -/
theorem Reads.item {f : Bool → Reader β} {isFirst : Bool} (x : String)
    (h : Reads (f true) (Text.utf8 (stringText x) ++ text) b rest) :
    Reads (Reader.hasItem isFirst >>= f)
      ((if isFirst then [] else [code ',']) ++ (Text.utf8 (stringText x) ++ text)) b rest := by
  rw [utf8_stringText] at h ⊢
  cases isFirst with
  | true => exact Reads.hasFirstItem h (by decide) (by decide) (by decide)
  | false => exact Reads.hasItem h (by decide) (by decide) (by decide)

theorem reads_itemsWith (expected : String) (xs : List String) (fuel : Nat) (done : List String)
    (hfuel : xs.length < fuel) :
    Reads (itemsWith (Reader.text expected) fuel done)
      (itemsText (if done.isEmpty then [] else [code ',']) xs) (done.reverse ++ xs) rest := by
  induction xs generalizing fuel done with
  | nil =>
    obtain ⟨fuel, rfl⟩ : ∃ n, fuel = n + 1 := ⟨fuel - 1, by omega⟩
    have hend : Reads (itemsWith (Reader.text expected) (fuel + 1) done) [code ']'] done.reverse rest :=
      Reads.hasNoItem (Reads.skip (reads_pure done.reverse rest))
    simpa [itemsText] using hend
  | cons x xs ih =>
    obtain ⟨fuel, rfl⟩ : ∃ n, fuel = n + 1 := ⟨fuel - 1, by omega⟩
    refine Reads.item x ?_
    simp only [if_true]
    have hrest := ih fuel (x :: done) (by simpa using hfuel)
    simp only [List.isEmpty_cons, Bool.false_eq_true, if_false, List.reverse_cons,
      List.append_assoc, List.singleton_append] at hrest
    exact (reads_text expected x).bind hrest

theorem reads_list (expected : String) (xs : List String) :
    Reads (list (Reader.text expected)) (code '[' :: itemsText [] xs) xs rest := by
  refine Reads.start (Reads.skip ?_) (by decide) (by decide)
  intro cursor hc
  have hlen := length_lt_itemsText [] xs
  have hsize : xs.length < cursor.size + 1 := by
    rw [cursor.size_eq, hc, List.length_append]
    omega
  obtain ⟨c', hr, hc'⟩ := reads_itemsWith expected xs (cursor.size + 1) [] hsize cursor hc
  exact ⟨c', by simpa [remaining, bind, StateT.bind, Except.bind] using hr, hc'⟩

/-- Bytes that can follow a value: none, or such as start with a comma or an end. -/
def Ends (rest : List UInt8) : Prop := ∀ x ∈ rest.head?, x = code ',' ∨ x = code '}' ∨ x = code ']'

/-- The double that is read from `0.0`. -/
def zero : Float := divideByPower 3 (Nat.toUInt64 0).toFloat 1

theorem reads_zero (expected : String) (hr : Ends rest) :
    Reads (anyNumber expected) [code '0', code '.', code '0'] (.real zero) rest := by
  have hdigits : Reads (takeWhile Char.isDigit) [code '0'] ['0'] ([] ++ rest) := by
    refine reads_takeWhile Char.isDigit (by simp; decide) fun x hx => ?_
    rcases hr x hx with rfl | rfl | rfl <;> decide
  have hfraction : Reads (fractionPart true 0 0) [code '.', code '0'] (.real zero) rest := by
    refine Reads.skip (hdigits.bind ?_)
    refine Reads.peek ?_
    have hnoExponent : ∀ c, ([] ++ rest).head?.map charOf = some c → c ≠ 'e' ∧ c ≠ 'E' := by
      intro c hc
      obtain ⟨x, hx, rfl⟩ := Option.map_eq_some_iff.mp hc
      rcases hr x hx with rfl | rfl | rfl <;> decide
    split
    · exact absurd rfl (hnoExponent _ ‹_›).1
    · exact absurd rfl (hnoExponent _ ‹_›).2
    · exact reads_pure (Number.real zero) rest
  refine Reads.start ?_ (by decide) (by decide)
  refine Reads.next ?_ (by decide)
  refine Reads.peek ?_
  have hpoint : Option.map charOf ([code '.', code '0'] ++ rest).head? = some '.' := rfl
  have hdigit : Char.isDigit '.' = false := rfl
  simp only [hpoint, Option.map_some, hdigit, Option.getD_some, Bool.and_false, Bool.false_eq_true,
    if_false, if_true, pure_bind]
  refine Reads.peek ?_
  simp only [hpoint]
  exact hfraction

end Values

section Records

variable {σ : Type} {members : List (Member σ)}

/-- A member as it is written, and what reading it does to the record. -/
structure Field (σ : Type) where
  name : String
  text : List UInt8
  change : σ → σ

/-- The bytes of the members of an object, each after a comma or, the first one, after `before`. -/
def fieldsText (before : List UInt8) : List (Field σ) → List UInt8
  | [] => [code '}']
  | f :: fs =>
    before ++ (Text.utf8 (stringText f.name) ++ (code ':' :: (f.text ++ fieldsText [code ','] fs)))

theorem length_lt_fieldsText (before : List UInt8) (fs : List (Field σ)) :
    fs.length < (fieldsText before fs).length := by
  induction fs generalizing before with
  | nil => simp [fieldsText]
  | cons f fs ih =>
    have hf := ih [code ',']
    simp only [fieldsText, utf8_stringText, List.length_append, List.length_cons]
    omega

theorem ends_fieldsText (fs : List (Field σ)) : Ends (fieldsText [code ','] fs ++ rest) := by
  cases fs <;> simp [Ends, fieldsText]

/-- The record has a member of this name, which reads the field. -/
def Field.Known (members : List (Member σ)) (f : Field σ) : Prop :=
  ∃ m, members.find? (·.name == f.name) = some m ∧ m.name = f.name ∧
    ∀ rest, Ends rest → Reads m.read f.text f.change rest

theorem Reads.colon {g : Unit → Reader β} (h : Reads (g ()) text b rest) :
    Reads (colon >>= g) (code ':' :: text) b rest := by
  rw [Reader.colon, bind_assoc]
  exact Reads.past (Reads.skip h) (by decide) (by decide)

theorem Reads.memberEnd {f : Option String → Reader β} {isFirst : Bool}
    (h : Reads (f none) (code '}' :: text) b rest) :
    Reads (memberName? isFirst >>= f) (code '}' :: text) b rest := by
  rw [memberName?, bind_assoc]
  exact Reads.past (by simpa using h) (by decide) (by decide)

theorem reads_quotedName (name : String) :
    Reads (do
      match ← peekPastBlanks with
      | some '"' =>
        skip
        return some (← string)
      | some '}' => failNext .trailingComma
      | some _ => failNext .keyNotString
      | none => failNext .endInValue) (Text.utf8 (stringText name)) (some name) rest := by
  rw [utf8_stringText]
  exact Reads.past (Reads.skip ((reads_string name).map some)) (by decide) (by decide)

theorem reads_memberName (name : String) (isFirst : Bool) :
    Reads (memberName? isFirst)
      ((if isFirst then [] else [code ',']) ++ Text.utf8 (stringText name)) (some name) rest := by
  cases isFirst with
  | true =>
    have hname := @reads_quotedName rest name
    rw [utf8_stringText] at hname ⊢
    exact Reads.past hname (by decide) (by decide)
  | false => exact Reads.past (Reads.skip (reads_quotedName name)) (by decide) (by decide)

theorem reads_recordMembers (fs : List (Field σ)) (fuel : Nat) (isFirst : Bool) (p : Partial σ)
    (hfuel : fs.length < fuel) (hknown : ∀ f ∈ fs, f.Known members)
    (hnodup : ((fs.map (·.name)).reverse ++ p.names).Nodup) :
    Reads (recordMembers members fuel isFirst p)
      (fieldsText (if isFirst then [] else [code ',']) fs)
      ⟨fs.foldl (fun r f => f.change r) p.record, (fs.map (·.name)).reverse ++ p.names⟩ rest := by
  induction fs generalizing fuel isFirst p with
  | nil =>
    obtain ⟨fuel, rfl⟩ : ∃ n, fuel = n + 1 := ⟨fuel - 1, by omega⟩
    exact Reads.memberEnd (Reads.skip (reads_pure p rest))
  | cons f fs ih =>
    obtain ⟨fuel, rfl⟩ : ∃ n, fuel = n + 1 := ⟨fuel - 1, by omega⟩
    obtain ⟨m, hm, hname, hread⟩ := hknown f (by simp)
    -- The names seen so far are kept in reverse, so the next one moves from one side to the other.
    have hnames : ((f :: fs).map (·.name)).reverse ++ p.names =
        (fs.map (·.name)).reverse ++ f.name :: p.names := by simp
    rw [hnames] at hnodup
    have hfresh : f.name ∉ p.names :=
      (List.nodup_cons.mp (List.nodup_append.mp hnodup).2.1).1
    have hadd : Reads (p.add m) f.text ⟨f.change p.record, f.name :: p.names⟩
        (fieldsText [code ','] fs ++ rest) := by
      rw [← hname]
      exact (hread _ (ends_fieldsText fs)).map _
    rw [fieldsText, ← List.append_assoc]
    refine (reads_memberName f.name isFirst).bind ?_
    simp only [hm, hfresh, if_false]
    refine Reads.colon ?_
    have hrest := ih fuel false ⟨f.change p.record, f.name :: p.names⟩ (by simpa using hfuel)
      (fun g hg => hknown g (by simp [hg])) hnodup
    rw [hnames]
    exact hadd.bind hrest

/-- An object with members of a record is read as the record that they change `start` to, one after
the other. -/
theorem reads_record (expected : String) (start : σ) (fs : List (Field σ))
    (hknown : ∀ f ∈ fs, f.Known members) (hnodup : (fs.map (·.name)).Nodup) :
    Reads (record expected members start) (code '{' :: fieldsText [] fs)
      ⟨fs.foldl (fun r f => f.change r) start, (fs.map (·.name)).reverse⟩ rest := by
  refine Reads.start (Reads.skip ?_) (by decide) (by decide)
  intro cursor hc
  -- Each member takes at least one byte, so the bytes that are left are fuel enough.
  have hlen := length_lt_fieldsText [] fs
  have hsize : fs.length < cursor.size + 1 := by
    rw [cursor.size_eq, hc, List.length_append]
    omega
  obtain ⟨c', hr, hc'⟩ := reads_recordMembers fs (cursor.size + 1) true ⟨start, []⟩ hsize hknown
    (by simpa using (List.reverse_perm _).nodup_iff.mpr hnodup) cursor hc
  exact ⟨c', by simpa [remaining, bind, StateT.bind, Except.bind] using hr, hc'⟩

/-- If all members of a record are there, none is found missing. -/
theorem reads_fullRecord (expected : String) (start : σ) (fs : List (Field σ))
    (hknown : ∀ f ∈ fs, f.Known members) (hnodup : (fs.map (·.name)).Nodup)
    (hall : members.map (·.name) = fs.map (·.name)) :
    Reads (fullRecord expected members start) (code '{' :: fieldsText [] fs)
      (fs.foldl (fun r f => f.change r) start) rest := by
  rw [← List.append_nil (code '{' :: fieldsText [] fs)]
  refine (reads_record expected start fs hknown hnodup).bind ?_
  have hfind : members.find? (·.name ∉ (fs.map (·.name)).reverse) = none := by
    rw [← hall]
    simpa using fun m hm => ⟨m, hm, rfl⟩
  simp only [hfind]
  exact reads_pure _ rest

end Records

theorem reads_textEnd : Reads textEnd [] () [] := by
  have hblank : Reads (takeWhile isBlank) [] [] ([] ++ []) :=
    reads_takeWhile isBlank (by simp) (by simp)
  have hpast : Reads peekPastBlanks [] none ([] ++ []) := hblank.bind (reads_peek [])
  exact hpast.bind (reads_pure () [])

/-- A value that takes up a whole text is what the text is read as. -/
theorem readWith_of_reads {r : Reader α} {s : String} (h : Reads r (Text.utf8 s) a []) :
    readWith r s = .ok a := by
  obtain ⟨c, hr, hc⟩ := h { rest := Text.utf8 s } (by simp)
  obtain ⟨c', hend, -⟩ := reads_textEnd c hc
  simp only [readWith, StateT.run', bind, StateT.bind, Except.bind, hr, hend]
  rfl

end Reader

end Json

end Folio
