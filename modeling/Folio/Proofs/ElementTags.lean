import Folio.Text.Naming

/-! The custom element tag of a component. A name is cut into words in two passes, and each of them goes
on behind the characters that it has cut. Both together cut the name by one rule, which sees two
neighbours and the character after them. -/

namespace Folio.Text

/-- Characters with a hyphen between those neighbours that a rule parts. The rule sees both of them and
the character after them. -/
def hyphenate (parts : Char → Char → Option Char → Bool) : List Char → List Char
  | x :: y :: rest =>
    if parts x y rest.head? then x :: '-' :: hyphenate parts (y :: rest)
    else x :: hyphenate parts (y :: rest)
  | [x] => [x]
  | [] => []

/-- A word starts with a capital after a small letter or a digit. -/
def isHump (x y : Char) (_ : Option Char) : Bool := (isSmall x || x.isDigit) && isCapital y

/-- A word starts with the last one of several capitals if a small letter follows. -/
def isAcronymEnd (x y : Char) (next : Option Char) : Bool :=
  isCapital x && isCapital y && next.any isSmall

/-- Where a word starts inside of a name. -/
def isWordStart (x y : Char) (next : Option Char) : Bool := isHump x y next || isAcronymEnd x y next

section Classes
variable {c : Char}

theorem not_isSmall_of_isCapital (h : isCapital c = true) : isSmall c = false := by
  simp only [isCapital, Bool.and_eq_true, decide_eq_true_eq] at h
  have hlt : c < 'a' := Nat.lt_of_le_of_lt h.2 (by decide)
  simp [isSmall, Char.not_le.mpr hlt]

theorem not_isDigit_of_isCapital (h : isCapital c = true) : c.isDigit = false := by
  simp only [isCapital, Bool.and_eq_true, decide_eq_true_eq] at h
  have hlt : '9' < c := Nat.lt_of_lt_of_le (by decide) h.1
  have hdigit : c.isDigit = (decide ('0' ≤ c) && decide (c ≤ '9')) := rfl
  simp [hdigit, Char.not_le.mpr hlt]

theorem isHump_of_isCapital (h : isCapital c = true) (y : Char) (next : Option Char) :
    isHump c y next = false := by
  simp [isHump, not_isSmall_of_isCapital h, not_isDigit_of_isCapital h]

end Classes

section Rules
variable {parts : Char → Char → Option Char → Bool}

/-- A character that is not parted from the next one goes on as it is. -/
theorem hyphenate_cons {x : Char} {cs : List Char}
    (h : ∀ y rest, cs = y :: rest → parts x y rest.head? = false) :
    hyphenate parts (x :: cs) = x :: hyphenate parts cs := by
  cases cs with
  | nil => rfl
  | cons y rest => rw [hyphenate, h y rest rfl, if_neg Bool.false_ne_true]

/-- The first character stays the first. -/
theorem exists_hyphenate_cons (x : Char) (cs : List Char) :
    ∃ rest, hyphenate parts (x :: cs) = x :: rest := by
  cases cs with
  | nil => exact ⟨[], rfl⟩
  | cons y rest =>
    rw [hyphenate]
    split
    · exact ⟨_, rfl⟩
    · exact ⟨_, rfl⟩

/-- Nothing but hyphens is set between the characters. -/
theorem mem_hyphenate {a : Char} {cs : List Char} (h : a ∈ hyphenate parts cs) : a = '-' ∨ a ∈ cs := by
  fun_induction hyphenate parts cs with
  | case1 x y rest _ ih | case2 x y rest _ ih => grind
  | case3 | case4 => exact .inr h

end Rules

/-- A capital that was set apart is not in the way of the next one, since no hump starts with it. -/
theorem splitHumps_eq (done cs : List Char) :
    splitHumps done cs = done.reverse ++ hyphenate isHump cs := by
  fun_induction splitHumps done cs with
  | case1 done x y rest h ih =>
    have hy : isCapital y = true := (Bool.and_eq_true_iff.mp h).2
    rw [ih, hyphenate, isHump, if_pos h,
      hyphenate_cons fun z more _ => isHump_of_isCapital hy z more.head?]
    simp
  | case2 done x y rest h ih =>
    rw [ih, hyphenate, isHump, if_neg h]
    simp
  | case3 done x => simp [hyphenate]
  | case4 done => simp [hyphenate]

/-- Capitals stay together as long as no small letter comes after the next one. -/
theorem hyphenate_capitals {caps tail : List Char} (hcaps : ∀ c ∈ caps, isCapital c = true)
    (hhead : tail.head?.any isSmall = false)
    (htail : ∀ x y rest, tail = y :: rest → isAcronymEnd x y rest.head? = false) :
    hyphenate isAcronymEnd (caps ++ tail) = caps ++ hyphenate isAcronymEnd tail := by
  induction caps with
  | nil => rfl
  | cons x caps ih =>
    obtain ⟨-, hcaps⟩ := List.forall_mem_cons.mp hcaps
    rw [List.cons_append, hyphenate_cons, ih hcaps, List.cons_append]
    intro y rest hrest
    cases caps with
    | nil => exact htail x y rest hrest
    | cons z caps =>
      obtain ⟨-, rfl⟩ : z = y ∧ caps ++ tail = rest := by simpa using hrest
      have hnext : (caps ++ tail).head?.any isSmall = false := by
        cases caps with
        | nil => exact hhead
        | cons w caps => exact not_isSmall_of_isCapital (hcaps w (by simp))
      rw [isAcronymEnd, hnext, Bool.and_false]

/-- What is behind a run of capitals starts with no capital. -/
theorem not_isCapital_of_dropWhile {cs rest : List Char} {next : Char}
    (h : cs.dropWhile isCapital = next :: rest) : isCapital next = false := by
  have hhead := List.head?_dropWhile_not isCapital cs
  simpa [h] using hhead

/-- A character that is no capital goes on as it is, and so does any character before it. -/
theorem hyphenate_acronym_cons {next : Char} (h : isCapital next = false) (rest : List Char) :
    hyphenate isAcronymEnd (next :: rest) = next :: hyphenate isAcronymEnd rest :=
  hyphenate_cons fun y more _ => by simp [isAcronymEnd, h]

theorem hyphenate_acronym_cons_cons (x : Char) {next : Char} (h : isCapital next = false)
    (rest : List Char) :
    hyphenate isAcronymEnd (x :: next :: rest) = x :: next :: hyphenate isAcronymEnd rest := by
  rw [hyphenate_cons, hyphenate_acronym_cons h]
  rintro y more ⟨⟩
  simp [isAcronymEnd, h]

/-- Before a small letter, the last one of several capitals is parted from the others. -/
theorem hyphenate_acronym {caps rest : List Char} {before last next : Char}
    (hcaps : ∀ c ∈ caps ++ [before, last], isCapital c = true) (hnext : isSmall next = true) :
    hyphenate isAcronymEnd (caps ++ before :: last :: next :: rest) =
      caps ++ before :: '-' :: last :: next :: hyphenate isAcronymEnd rest := by
  obtain ⟨hcaps, hpair⟩ := List.forall_mem_append.mp hcaps
  have hbefore : isCapital before = true := hpair before (by simp)
  have hlast : isCapital last = true := hpair last (by simp)
  have hcapital : isCapital next = false := by
    rw [Bool.eq_false_iff]
    intro hcapital
    rw [not_isSmall_of_isCapital hcapital] at hnext
    cases hnext
  have htail : ∀ x y more, before :: last :: next :: rest = y :: more →
      isAcronymEnd x y more.head? = false := by
    rintro x y more ⟨⟩
    simp [isAcronymEnd, not_isSmall_of_isCapital hlast]
  rw [hyphenate_capitals hcaps (by simp [not_isSmall_of_isCapital hbefore]) htail, hyphenate,
    if_pos (by simp [isAcronymEnd, hbefore, hlast, hnext]), hyphenate_acronym_cons_cons last hcapital]

/-- Before any other character, capitals stay together. -/
theorem hyphenate_run {run rest : List Char} {next : Char} (hrun : ∀ c ∈ run, isCapital c = true)
    (hsmall : isSmall next = false) (hcapital : isCapital next = false) :
    hyphenate isAcronymEnd (run ++ next :: rest) = run ++ next :: hyphenate isAcronymEnd rest := by
  have htail : ∀ x y more, next :: rest = y :: more → isAcronymEnd x y more.head? = false := by
    rintro x y more ⟨⟩
    simp [isAcronymEnd, hcapital]
  rw [hyphenate_capitals hrun (by simp [hsmall]) htail, hyphenate_acronym_cons hcapital]

/-- A run of capitals is passed as a whole, with the character behind it. No place is lost by that,
since no word starts with a character that is no capital. -/
theorem splitAcronyms_eq (done cs : List Char) :
    splitAcronyms done cs = done.reverse ++ hyphenate isAcronymEnd cs := by
  -- The text from a capital on: the run of capitals that starts there, and the rest.
  have hwhole (c : Char) (cs : List Char) :
      c :: cs = (c :: cs.takeWhile isCapital) ++ cs.dropWhile isCapital := by
    rw [List.cons_append, List.takeWhile_append_dropWhile]
  have hcaps {c : Char} (hc : isCapital c = true) (cs : List Char) :
      ∀ d ∈ c :: cs.takeWhile isCapital, isCapital d = true :=
    List.forall_mem_cons.mpr ⟨hc, List.all_eq_true.mp List.all_takeWhile⟩
  fun_induction splitAcronyms done cs with
  | case1 done => simp [hyphenate]
  | case2 done c cs hc run hdrop =>
    rw [hwhole c cs, hdrop, hyphenate_capitals (hcaps hc cs) rfl (by simp)]
    simp [run, hyphenate]
  | case3 done c cs hc run next rest hdrop last before more hrun hnext ih =>
    have hsplit : c :: cs.takeWhile isCapital = more.reverse ++ [before, last] := by
      simpa using congrArg List.reverse hrun
    have htext : c :: cs = more.reverse ++ before :: last :: next :: rest := by
      rw [hwhole c cs, hdrop, hsplit]
      simp
    rw [ih, htext, hyphenate_acronym (hsplit ▸ hcaps hc cs) hnext]
    simp
  | case4 done c cs hc run next rest hdrop last before more hrun hnext ih =>
    have hsplit : c :: cs.takeWhile isCapital = more.reverse ++ [before, last] := by
      simpa using congrArg List.reverse hrun
    rw [ih, hwhole c cs, hdrop, hyphenate_run (hcaps hc cs) (Bool.eq_false_iff.mpr hnext)
      (not_isCapital_of_dropWhile hdrop), hsplit]
    simp
  | case5 done c cs hc run next rest hdrop hrun ih =>
    have hone : cs.takeWhile isCapital = [] := by
      rcases hrev : run.reverse with _ | ⟨last, _ | ⟨before, more⟩⟩
      · simp [run] at hrev
      · simpa [run] using congrArg List.length hrev
      · exact absurd hrev (hrun last before more)
    rw [ih, hwhole c cs, hdrop, hone, List.singleton_append,
      hyphenate_acronym_cons_cons c (not_isCapital_of_dropWhile hdrop)]
    simp
  | case6 done c cs hc ih =>
    rw [ih, hyphenate_acronym_cons (Bool.eq_false_iff.mpr hc)]
    simp

/-- The hyphens of the first pass neither make nor hide a place for the second one. -/
theorem hyphenate_hyphenate (cs : List Char) :
    hyphenate isHump (hyphenate isAcronymEnd cs) = hyphenate isWordStart cs := by
  fun_induction hyphenate isAcronymEnd cs with
  | case1 x y rest hend ih =>
    have hx : isCapital x = true := by
      simp only [isAcronymEnd, Bool.and_eq_true] at hend
      exact hend.1.1
    have hhyphen : ∀ z next, isHump '-' z next = false := fun z next => rfl
    rw [hyphenate_cons fun z more _ => isHump_of_isCapital hx z more.head?,
      hyphenate_cons fun z more _ => hhyphen z more.head?, ih, hyphenate, isWordStart, hend,
      Bool.or_true, if_pos rfl]
  | case2 x y rest hend ih =>
    obtain ⟨more, hmore⟩ : ∃ more, hyphenate isAcronymEnd (y :: rest) = y :: more :=
      exists_hyphenate_cons y rest
    have hrule : isWordStart x y rest.head? = isHump x y more.head? := by
      rw [isWordStart, Bool.eq_false_iff.mpr hend, Bool.or_false]
      rfl
    rw [hmore] at ih ⊢
    rw [hyphenate, hyphenate, hrule, ih]
  | case3 x => rfl
  | case4 => rfl

/-- Both passes together set a hyphen where a word starts. -/
theorem splitHumps_splitAcronyms (cs : List Char) :
    splitHumps [] (splitAcronyms [] cs) = hyphenate isWordStart cs := by
  rw [splitAcronyms_eq, splitHumps_eq, List.reverse_nil, List.nil_append, List.nil_append,
    hyphenate_hyphenate]

example : hyphenate isWordStart "aHTMLView2Go".toList = "a-HTML-View2-Go".toList := by decide +kernel

/-- The tag of a component: the name with a hyphen where a word starts, hyphens for underscores, and all
in lower case. -/
theorem elementTag_eq_hyphenate (name : String) :
    elementTag name = "ema-" ++ toLower (String.ofList
      ((hyphenate isWordStart name.toList).map fun c => if c = '_' then '-' else c)) := by
  rw [elementTag, splitHumps_splitAcronyms]

end Folio.Text
