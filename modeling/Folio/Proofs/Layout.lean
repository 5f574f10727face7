import Folio.Proofs.LexicalGrammar
import Folio.Proofs.Places
import Folio.Proofs.Relocation

/-! Layout says nothing: blanks before a token, and a blank in the place of a comment, change the
tokens only in their places and in what the parser does not look at. -/

namespace Folio.Token

/-- The tokens of segments that the parser looks at, all at one place. -/
def matter (ss : List Segment) : List Token :=
  Program.significant (ss.filterMap (Segment.at .start))

section Matter
variable {c : Char} {cs blanks text : List Char} {kind : Kind} {ss : List Segment}

theorem matter_append (left right : List Segment) :
    matter (left ++ right) = matter left ++ matter right := by
  simp [matter, Program.significant]

theorem matter_trivia (h : kind.isTrivia = true) : matter (.token kind text :: ss) = matter ss := by
  simp [matter, Program.significant, Segment.at, h]

theorem matter_dropped : matter (.dropped c :: ss) = matter ss := rfl

theorem relocate_placed (place : Location) (ss : List Segment) :
    (Program.significant (placed place ss)).map (Token.relocate fun _ => .start) =
      matter ss ++ [⟨.eof, "", .start⟩] := by
  induction ss generalizing place with
  | nil => rfl
  | cons s ss ih =>
    have ih := ih (place.advance s.text)
    cases s with
    | dropped c =>
      rw [matter_dropped, ← ih]
      rfl
    | token kind text =>
      cases hk : kind.isTrivia with
      | true =>
        rw [matter_trivia hk, ← ih]
        simp [placed, Segment.at, Program.significant, hk]
      | false =>
        simp only [matter, Program.significant] at ih ⊢
        simp [placed, Segment.at, hk, ih, Token.relocate]

theorem compile_of_matter {source other : String} (options : Options)
    (h : matter (segments source.toList) = matter (segments other.toList)) :
    compile source options = compile other options := by
  apply compile_congr fun _ => .start
  rw [scan_eq, scan_eq, relocate_placed, relocate_placed, h]

theorem matter_token (h : Lexeme kind text cs) :
    matter (segments (text ++ cs)) = matter [.token kind text] ++ matter (segments cs) := by
  rw [segments_token h, ← matter_append, List.singleton_append]

/-- A blank joins the blanks behind it, or is a token that the parser passes over. -/
theorem matter_blank (hc : Text.isBlank c = true) (cs : List Char) :
    matter (segments (c :: cs)) = matter (segments cs) := by
  by_cases hn : c = '\n'
  · subst hn
    exact matter_token (.newline cs)
  · obtain ⟨run, rest, rfl, h⟩ := exists_longestRun (fun c => Text.isBlank c && c != '\n') cs
    have hlong : LongestRun (fun c => Text.isBlank c && c != '\n') (c :: run) rest :=
      ⟨by simpa [hc, hn] using h.inside, h.stops⟩
    have hjoined : matter (segments (c :: (run ++ rest))) = matter (segments rest) :=
      matter_token (.whitespace (by simp) hlong)
    rw [hjoined]
    cases run with
    | nil => rfl
    | cons d run => exact (matter_token (.whitespace (by simp) h)).symm

theorem matter_blanks (hb : ∀ c ∈ blanks, Text.isBlank c = true) (cs : List Char) :
    matter (segments (blanks ++ cs)) = matter (segments cs) := by
  induction blanks with
  | nil => rfl
  | cons c blanks ih =>
    obtain ⟨hc, hrest⟩ := List.forall_mem_cons.mp hb
    rw [List.cons_append, matter_blank hc, ih hrest]

end Matter

section Followers
variable {d e : Char} {text u u' word : List Char} {kind : Kind}

/-- Whether a token takes in blanks that come behind it. -/
def TakesBlanks (kind : Kind) (text : List Char) : Prop :=
  kind = .whitespace ∨ kind = .comment ∧ ['/', '/'] <+: text

/-- A character may follow a token in the place of another one if it is the same, or if it is a
blank that the token does not take in. -/
def MayFollow (kind : Kind) (text : List Char) (d e : Char) : Prop :=
  e = d ∨ Text.isBlank e = true ∧ ¬TakesBlanks kind text

theorem LongestRun.follow {p : Char → Bool} (h : LongestRun p text (d :: u))
    (he : e = d ∨ p e = false) : LongestRun p text (e :: u') := by
  refine ⟨h.inside, ?_⟩
  intro c hc
  cases hc
  rcases he with rfl | he
  · exact h.stops e rfl
  · exact he

theorem LongestRun.follow_blank {p : Char → Bool} (h : LongestRun p text (d :: u))
    (hp : ∀ c, p c = true → Text.isBlank c = false) (he : e = d ∨ Text.isBlank e = true) :
    LongestRun p text (e :: u') := by
  refine h.follow (he.imp_right fun hb => ?_)
  by_contra hc
  rw [hp e (Bool.not_eq_false _ ▸ hc)] at hb
  cases hb

theorem prefix_of_not_mem (he : e ∉ word) (h : word <+: text ++ e :: u) : word <+: text := by
  induction text generalizing word with
  | nil =>
    cases word with
    | nil => exact List.prefix_refl []
    | cons c word =>
      obtain ⟨rfl, -⟩ := List.cons_prefix_cons.mp h
      exact absurd List.mem_cons_self he
  | cons c text ih =>
    cases word with
    | nil => exact ⟨_, rfl⟩
    | cons c' word =>
      obtain ⟨rfl, hp⟩ := List.cons_prefix_cons.mp h
      exact List.cons_prefix_cons.mpr ⟨rfl, ih (fun hm => he (List.mem_cons_of_mem _ hm)) hp⟩

/-- Symbols, and the marks that comments start with: at most two characters, and no blanks. -/
structure Mark (word : List Char) : Prop where
  short : word.length ≤ 2
  blank : ∀ c ∈ word, Text.isBlank c = false

theorem mark_spelling (s : Symbol) : Mark s.spelling := by
  refine ⟨?_, s.isBlank_spelling⟩
  obtain ⟨c, hc⟩ | ⟨c, d, hc⟩ := s.spelling_cases <;> simp [hc]

theorem mark_comment {d : Char} (hd : Text.isBlank d = false) : Mark ['/', d] := by
  have hslash : Text.isBlank '/' = false := by decide
  exact ⟨by simp, by simp [hslash, hd]⟩

/-- What a text starts with behind its first character is seen from one character behind it. -/
theorem Mark.follow (hw : Mark word) (ht : text ≠ []) (he : e = d ∨ Text.isBlank e = true)
    (h : word <+: text ++ e :: u') : word <+: text ++ d :: u := by
  rcases he with rfl | he
  · have hlen : word.length ≤ (text ++ [e]).length := by
      have hpos := List.length_pos_iff.mpr ht
      have hshort := hw.short
      simp only [List.length_append, List.length_singleton]
      omega
    have hmore : ∀ v : List Char, text ++ [e] <+: text ++ e :: v := fun v => ⟨v, by simp⟩
    exact (List.prefix_of_prefix_length_le h (hmore u') hlen).trans (hmore u)
  · have hmem : e ∉ word := by
      intro hm
      have hb := hw.blank e hm
      rw [he] at hb
      cases hb
    exact (prefix_of_not_mem hmem h).trans (List.prefix_append text _)

theorem isBlank_of_isWordPart (h : isWordPart e = true) : Text.isBlank e = false := by
  simp only [isWordPart, Bool.or_eq_true, beq_iff_eq] at h
  rcases h with (hl | hn) | rfl
  · exact Text.isBlank_of_isLetter hl
  · exact Text.isBlank_of_isNumeral hn
  · decide

theorem isBlank_of_isNumberPart (h : (e.isDigit || e == '.') = true) : Text.isBlank e = false := by
  simp only [Bool.or_eq_true, beq_iff_eq] at h
  rcases h with hd | rfl
  · exact Text.isBlank_of_isDigit hd
  · decide

/-- A token is the same before another character if it sees no difference in it. -/
theorem Lexeme.follow (h : Lexeme kind text (d :: u)) (he : MayFollow kind text d e) :
    Lexeme kind text (e :: u') := by
  have ht := h.ne_nil
  -- Literals and block comments have ended by themselves; what is left looks one character ahead.
  have hseen : e = d ∨ Text.isBlank e = true := he.imp_right And.left
  cases h with
  | newline => exact .newline _
  | whitespace hne h =>
    refine .whitespace hne (h.follow (.inl ?_))
    exact he.resolve_right fun hb => hb.2 (.inl rfl)
  | @lineComment run _ h =>
    refine .lineComment (h.follow (.inl ?_))
    exact he.resolve_right fun hb => hb.2 (.inr ⟨rfl, run, rfl⟩)
  | blockComment h =>
    cases h with
    | closed h => exact .blockComment (.closed h _)
  | string hq h =>
    cases h with
    | closed h => exact .string hq (.closed h _)
  | template h =>
    cases h with
    | closed h => exact .template (.closed h _)
  | number hc h => exact .number hc (h.follow_blank (fun _ => isBlank_of_isNumberPart) hseen)
  | keyword k hc h hk =>
    exact .keyword k hc (h.follow_blank (fun _ => isBlank_of_isWordPart) hseen) hk
  | identifier hc h hk =>
    exact .identifier hc (h.follow_blank (fun _ => isBlank_of_isWordPart) hseen) hk
  | symbol hs h hc =>
    refine .symbol hs ⟨hs ▸ List.prefix_append _ _, ?_⟩ ?_
    · intro s hp
      exact h.longest s ((mark_spelling s).follow ht hseen hp)
    · rintro (hp | hp)
      · exact hc (.inl ((mark_comment (by decide)).follow ht hseen hp))
      · exact hc (.inr ((mark_comment (by decide)).follow ht hseen hp))

end Followers

section Insertion
variable {d : Char} {u blanks cs text : List Char} {kind : Kind}

/-- A line comment goes on over blanks up to a newline, which is behind them at the latest. -/
theorem matter_lineComment (h : Lexeme .comment text (d :: u)) (hline : ['/', '/'] <+: text)
    (hb : ∀ c ∈ blanks, Text.isBlank c = true) (hn : d = '\n' → cs.head? = some '\n') :
    matter (segments (text ++ (blanks ++ cs))) = matter (segments cs) := by
  cases h with
  | blockComment h => cases h; all_goals simp [List.cons_prefix_cons] at hline
  | @lineComment run _ h =>
    have hd : d = '\n' := by simpa using h.stops d rfl
    obtain ⟨rest, rfl⟩ := List.head?_eq_some_iff.mp (hn hd)
    obtain ⟨taken, more, rfl, hrun⟩ := exists_longestRun (· != '\n') blanks
    have hlong : LongestRun (· != '\n') (run ++ taken) (more ++ '\n' :: rest) := by
      refine ⟨?_, ?_⟩
      · intro c hc
        exact (List.mem_append.mp hc).elim (h.inside c) (hrun.inside c)
      · cases more with
        | nil => simp
        | cons c more => simpa using hrun.stops
    have hmore : ∀ c ∈ more, Text.isBlank c = true := fun c hc => hb c (List.mem_append_right _ hc)
    have hcomment := matter_token (.lineComment hlong)
    simp only [List.cons_append, List.append_assoc] at hcomment ⊢
    rw [hcomment, matter_blanks hmore]
    rfl

/-- A token stays the same before blanks, or takes them in. -/
theorem matter_before_blanks (h : Lexeme kind text (d :: u)) (hne : blanks ≠ [])
    (hb : ∀ c ∈ blanks, Text.isBlank c = true) (hn : d = '\n' → cs.head? = some '\n') :
    matter (segments (text ++ (blanks ++ cs))) =
      matter [.token kind text] ++ matter (segments cs) := by
  by_cases ht : TakesBlanks kind text
  · rcases ht with rfl | ⟨rfl, hline⟩
    · cases h with
      | whitespace _ h =>
        have hall : ∀ c ∈ text ++ blanks, Text.isBlank c = true := by
          intro c hc
          rcases List.mem_append.mp hc with hc | hc
          · exact (Bool.and_eq_true_iff.mp (h.inside c hc)).1
          · exact hb c hc
        rw [← List.append_assoc, matter_blanks hall]
        rfl
    · exact matter_lineComment h hline hb hn
  · obtain ⟨e, blanks, rfl⟩ := List.exists_cons_of_ne_nil hne
    have hfollow : MayFollow kind text d e := .inr ⟨hb e List.mem_cons_self, ht⟩
    rw [List.cons_append, matter_token (h.follow hfollow), ← List.cons_append, matter_blanks hb]

end Insertion

section Cuts
variable {c d : Char} {blanks text u : List Char} {kind : Kind} {left right ss : List Segment}

/-- Segments that their own text is cut into. -/
def Cut (ss : List Segment) : Prop := segments (ss.flatMap Segment.text) = ss

theorem cut_segments (cs : List Char) : Cut (segments cs) := by
  rw [Cut, segments_text]

theorem Cut.dropped (h : Cut (.dropped c :: ss)) : startsToken c = false ∧ Cut ss := by
  rw [Cut, List.flatMap_cons, Segment.text, List.singleton_append, segments] at h
  cases hl : lexeme? c (ss.flatMap Segment.text) with
  | none =>
    rw [hl] at h
    exact ⟨lexeme?_eq_none.mp hl, (List.cons.inj h).2⟩
  | some found =>
    rw [hl] at h
    cases h

theorem Cut.token (h : Cut (.token kind text :: ss)) :
    Lexeme kind text (ss.flatMap Segment.text) ∧ Cut ss := by
  unfold Cut at h
  generalize hcs : (Segment.token kind text :: ss).flatMap Segment.text = cs at h
  match cs with
  | [] =>
    rw [segments] at h
    cases h
  | c :: cs =>
    rw [segments] at h
    cases hl : lexeme? c cs with
    | none =>
      rw [hl] at h
      cases h
    | some found =>
      obtain ⟨kind', n⟩ := found
      obtain ⟨more, rest, rfl, rfl, hlex⟩ := lexeme?_eq_some.mp hl
      simp only [hl, List.take_left, List.drop_left] at h
      cases h
      rw [segments_text]
      exact ⟨hlex, cut_segments rest⟩

/-- Blanks may stand between any two segments, and then nothing is changed before them. -/
theorem matter_insert (h : Cut (left ++ right)) (hright : right.flatMap Segment.text = d :: u)
    (hne : blanks ≠ []) (hb : ∀ c ∈ blanks, Text.isBlank c = true) (cs : List Char)
    (hn : d = '\n' → cs.head? = some '\n') :
    matter (segments (left.flatMap Segment.text ++ (blanks ++ cs))) =
      matter left ++ matter (segments cs) := by
  induction left with
  | nil => exact matter_blanks hb cs
  | cons s left ih =>
    cases s with
    | dropped c =>
      obtain ⟨hc, hcut⟩ := h.dropped
      rw [matter_dropped, ← ih hcut, List.flatMap_cons, Segment.text, List.singleton_append,
        List.cons_append, segments_dropped hc, matter_dropped]
    | token kind text =>
      rw [List.cons_append] at h
      obtain ⟨hlex, hcut⟩ := h.token
      have ih := ih hcut
      rw [← List.singleton_append, matter_append, List.append_assoc, ← ih, List.flatMap_append]
      rw [List.flatMap_append, hright] at hlex
      simp only [List.flatMap_singleton, Segment.text, List.append_assoc]
      -- Only the last segment before the blanks can see them.
      cases hl : left.flatMap Segment.text with
      | nil =>
        rw [hl] at hlex
        rw [List.nil_append, matter_before_blanks hlex hne hb hn, matter_blanks hb]
      | cons e more =>
        rw [hl, List.cons_append] at hlex
        rw [List.cons_append, matter_token (hlex.follow (.inl rfl))]

theorem Cut.behind (h : Cut (left ++ right)) : Cut right := by
  induction left with
  | nil => exact h
  | cons s left ih =>
    rw [List.cons_append] at h
    cases s with
    | dropped c => exact ih h.dropped.2
    | token kind text => exact ih h.token.2

theorem exists_segment {i : Nat} {t : Token} {place : Location} (before : List Char)
    (h : (placed place ss)[i]? = some t) (hk : t.kind ≠ .eof) :
    ∃ left right, ss = left ++ .token t.kind t.text.toList :: right ∧
      (textsBefore before ss)[i]? = some (before ++ left.flatMap Segment.text) := by
  induction ss generalizing i place before with
  | nil =>
    cases i with
    | zero =>
      cases h
      exact absurd rfl hk
    | succ i => cases h
  | cons s ss ih =>
    cases s with
    | dropped c =>
      obtain ⟨left, right, rfl, hi⟩ := ih (before ++ [c]) h
      exact ⟨.dropped c :: left, right, rfl, by simpa [textsBefore, Segment.text] using hi⟩
    | token kind text =>
      cases i with
      | zero =>
        cases h
        exact ⟨[], ss, by simp, by simp [textsBefore]⟩
      | succ i =>
        obtain ⟨left, right, rfl, hi⟩ := ih (before ++ text) h
        exact ⟨.token kind text :: left, right, rfl, by simpa [textsBefore, Segment.text] using hi⟩

end Cuts

end Folio.Token

namespace Folio

/-- Results that say the same, however long they took. -/
def Result.Alike (r r' : Result) : Prop := r.output = r'.output ∧ r.warnings = r'.warnings

namespace Token

/-- The token at an index of a source, with what is written before and behind it. It may be set off
from what is before it by any blanks, and a comment may be a blank instead. -/
structure Loose (source : String) (options : Options) (i : Nat) (t : Token)
    (before after : List Char) : Prop where
  stands : (textsBefore [] (segments source.toList))[i]? = some before
  place : t.location = Location.start.advance before
  text : source.toList = before ++ t.text.toList ++ after
  blanks : ∀ blanks : List Char, blanks ≠ [] → (∀ c ∈ blanks, Text.isBlank c = true) →
    (compile (String.ofList (before ++ blanks ++ t.text.toList ++ after)) options).Alike
      (compile source options)
  comment : t.kind = .comment →
    (compile (String.ofList (before ++ [' '] ++ after)) options).Alike (compile source options)

theorem alike_of_matter {source : String} {cs : List Char} (options : Options)
    (h : matter (segments cs) = matter (segments source.toList)) :
    (compile (String.ofList cs) options).Alike (compile source options) := by
  have hsame : compile (String.ofList cs) options = compile source options :=
    compile_of_matter options (by simpa using h)
  rw [hsame]
  exact ⟨rfl, rfl⟩

theorem head_comment {d : Char} {more rest : List Char} (h : Lexeme .comment (d :: more) rest) :
    d = '/' := by
  cases h with
  | lineComment => rfl
  | blockComment h => cases h <;> rfl

/-- Layout does not matter to what a document compiles to. -/
theorem layout_insensitive (source : String) (options : Options) {i : Nat} {t : Token}
    (ht : (scan source)[i]? = some t) (hk : t.kind ≠ .eof) :
    ∃ before after, Loose source options i t before after := by
  rw [scan_eq] at ht
  obtain ⟨left, right, hss, hbefore⟩ := exists_segment [] ht hk
  have hcut : Cut (left ++ .token t.kind t.text.toList :: right) := hss ▸ cut_segments source.toList
  obtain ⟨hlex, hright⟩ := hcut.behind.token
  obtain ⟨d, more, hword⟩ := List.exists_cons_of_ne_nil hlex.ne_nil
  have hhead : (Segment.token t.kind t.text.toList :: right).flatMap Segment.text =
      d :: (more ++ right.flatMap Segment.text) := by simp [Segment.text, hword]
  refine ⟨left.flatMap Segment.text, right.flatMap Segment.text, hbefore, ?_, ?_, ?_, ?_⟩
  · have hi := congrArg (·[i]?) (location_placed [] (segments source.toList))
    simpa [Location.advance, List.getElem?_map, ht, hbefore] using hi
  · rw [← segments_text source.toList, hss]
    simp [Segment.text]
  · intro blanks hne hb
    apply alike_of_matter
    have hinsert := matter_insert hcut hhead hne hb
      (t.text.toList ++ right.flatMap Segment.text) (by simp [hword])
    have hsame : matter (segments (t.text.toList ++ right.flatMap Segment.text)) =
        matter (.token t.kind t.text.toList :: right) := congrArg matter hcut.behind
    rw [hss, matter_append, ← hsame, ← hinsert]
    simp only [List.append_assoc]
  · intro hc
    apply alike_of_matter
    -- No line comment stands right before another comment, so that none goes on over the blank.
    have hd : d ≠ '\n' := by
      rw [hword, hc] at hlex
      rw [head_comment hlex]
      decide
    have hblank : ∀ c ∈ [' '], Text.isBlank c = true := List.forall_mem_singleton.mpr (by decide)
    have hinsert := matter_insert hcut hhead (List.cons_ne_nil ' ' []) hblank
      (right.flatMap Segment.text) (fun hn => absurd hn hd)
    have hsame : matter (segments (right.flatMap Segment.text)) = matter right :=
      congrArg matter hright
    rw [hss, matter_append, matter_trivia (by rw [hc]; rfl), ← hsame, ← hinsert]
    simp only [List.append_assoc]

theorem layout_insensitive_sample :
    (scan "page//x\nP {}")[1]? = some ⟨.comment, "//x", ⟨1, 5⟩⟩ ∧ Kind.comment ≠ .eof ∧
      ∃ before after, Loose "page//x\nP {}" {} 1 ⟨.comment, "//x", ⟨1, 5⟩⟩ before after := by
  have hscan : (scan "page//x\nP {}")[1]? = some ⟨.comment, "//x", ⟨1, 5⟩⟩ := by
    decide +kernel
  have hkind : Kind.comment ≠ .eof := by decide
  exact ⟨hscan, hkind, layout_insensitive "page//x\nP {}" {} hscan hkind⟩

end Token

end Folio
