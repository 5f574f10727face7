import Folio.Proofs.Alphabet

/-! The lexical grammar of documents, and that the tokenizer follows it. The grammar says which
token a text starts with, each as long as its rule allows; where none starts, one character is
dropped. -/

namespace Folio.Token

/-- The longest part of a text, from its start, whose characters are all of a class. -/
structure LongestRun (p : Char → Bool) (run rest : List Char) : Prop where
  inside : ∀ c ∈ run, p c = true
  stops : ∀ c ∈ rest.head?, p c = false

/-- The inside of a literal: pairs of a backslash and any character, and characters that are neither
a backslash nor the quote. -/
inductive Content (quote : Char) : List Char → Prop where
  | nil : Content quote []
  | plain {c : Char} {cs : List Char} (hq : c ≠ quote) (hb : c ≠ '\\') (more : Content quote cs) :
      Content quote (c :: cs)
  | escape (c : Char) {cs : List Char} (more : Content quote cs) : Content quote ('\\' :: c :: cs)

/-- A literal at the start of a text. It ends with the first quote that is not escaped; without one
it is all of the text, and a backslash may be left over at its end. -/
inductive Literal (quote : Char) : List Char → List Char → Prop where
  | closed {content : List Char} (h : Content quote content) (rest : List Char) :
      Literal quote (quote :: (content ++ [quote])) rest
  | unclosed {content : List Char} (h : Content quote content) : Literal quote (quote :: content) []
  | escaping {content : List Char} (h : Content quote content) :
      Literal quote (quote :: (content ++ ['\\'])) []

/-- The end of a block comment. -/
def commentEnd : List Char := ['*', '/']

/-- A block comment at the start of a text. It ends with the first mark of its end behind the two
characters that open it; without one it is all of the text. -/
inductive BlockComment : List Char → List Char → Prop where
  | closed {inner : List Char} (h : ¬commentEnd <:+: inner ++ ['*']) (rest : List Char) :
      BlockComment ('/' :: '*' :: (inner ++ commentEnd)) rest
  | unclosed {inner : List Char} (h : ¬commentEnd <:+: inner) :
      BlockComment ('/' :: '*' :: inner) []

/-- Whether a word may start with a character. -/
def startsWord (c : Char) : Bool := Text.isLetter c || c == '_'

/-- Whether a text starts with a comment. -/
def StartsComment (text : List Char) : Prop := ['/', '/'] <+: text ∨ ['/', '*'] <+: text

/-- The lexical grammar: a text starts with a token of this kind, and `rest` is left behind it. -/
inductive Lexeme : Kind → List Char → List Char → Prop where
  | newline (rest : List Char) : Lexeme .newline ['\n'] rest
  | whitespace {run rest : List Char} (hne : run ≠ [])
      (h : LongestRun (fun c => Text.isBlank c && c != '\n') run rest) : Lexeme .whitespace run rest
  | lineComment {run rest : List Char} (h : LongestRun (· != '\n') run rest) :
      Lexeme .comment ('/' :: '/' :: run) rest
  | blockComment {text rest : List Char} (h : BlockComment text rest) : Lexeme .comment text rest
  | string {quote : Char} {text rest : List Char} (hq : quote = '"' ∨ quote = '\'')
      (h : Literal quote text rest) : Lexeme .string text rest
  | template {text rest : List Char} (h : Literal '\x60' text rest) : Lexeme .template text rest
  | number {c : Char} {run rest : List Char} (hc : c.isDigit = true)
      (h : LongestRun (fun d => d.isDigit || d == '.') run rest) : Lexeme .number (c :: run) rest
  | keyword (k : Keyword) {c : Char} {run rest : List Char} (hc : startsWord c = true)
      (h : LongestRun isWordPart run rest) (hk : k.spelling = String.ofList (c :: run)) :
      Lexeme (.keyword k) (c :: run) rest
  | identifier {c : Char} {run rest : List Char} (hc : startsWord c = true)
      (h : LongestRun isWordPart run rest)
      (hk : ∀ k : Keyword, k.spelling ≠ String.ofList (c :: run)) :
      Lexeme .identifier (c :: run) rest
  | symbol {s : Symbol} {text rest : List Char} (hs : s.spelling = text)
      (h : s.Longest (text ++ rest)) (hc : ¬StartsComment (text ++ rest)) :
      Lexeme (.symbol s) text rest

/-- The tokens of a text that starts at a place. -/
inductive Tokens : Location → List Char → List Token → Prop where
  | done (place : Location) : Tokens place [] [⟨.eof, "", place⟩]
  | token {place : Location} {kind : Kind} {text rest : List Char} {ts : List Token}
      (h : Lexeme kind text rest) (more : Tokens (place.advance text) rest ts) :
      Tokens place (text ++ rest) (⟨kind, String.ofList text, place⟩ :: ts)
  /-- Where no token starts, one character is dropped. -/
  | dropped {place : Location} {c : Char} {rest : List Char} {ts : List Token}
      (h : ∀ kind text after, text ++ after = c :: rest → ¬Lexeme kind text after)
      (more : Tokens (place.step c) rest ts) : Tokens place (c :: rest) ts

section Runs
variable {p : Char → Bool} {run rest : List Char}

theorem LongestRun.takeWhile_eq (h : LongestRun p run rest) : (run ++ rest).takeWhile p = run := by
  rw [List.takeWhile_append_of_pos h.inside]
  cases rest with
  | nil => simp
  | cons c rest => simp [h.stops c rfl]

theorem exists_longestRun (p : Char → Bool) (text : List Char) :
    ∃ run rest, text = run ++ rest ∧ LongestRun p run rest := by
  refine ⟨text.takeWhile p, text.dropWhile p, List.takeWhile_append_dropWhile.symm, ?_, ?_⟩
  · intro c hc
    exact List.all_eq_true.mp List.all_takeWhile c hc
  · intro c hc
    have hstop := List.head?_dropWhile_not p text
    rw [hc] at hstop
    simpa using hstop

end Runs

section Literals
variable {quote : Char} {content rest : List Char} {n : Nat}

theorem quotedLength_content (h : Content quote content) (hq : quote ≠ '\\') (n : Nat) :
    quotedLength quote (content ++ rest) n = quotedLength quote rest (n + content.length) := by
  induction h generalizing n with
  | nil => rfl
  | @plain c cs hc hb _ ih =>
    have hn : n + (c :: cs).length = n + 1 + cs.length := by
      simp only [List.length_cons]
      omega
    rw [hn, ← ih (n + 1)]
    cases hcs : cs ++ rest with
    | nil => simp [hcs, quotedLength]
    | cons d ds => simp [hcs, quotedLength, hc, hb]
  | @escape c cs _ ih =>
    have hn : n + ('\\' :: c :: cs).length = n + 2 + cs.length := by
      simp only [List.length_cons]
      omega
    rw [hn, ← ih (n + 2)]
    simp [quotedLength, hq.symm]

theorem exists_content (quote : Char) (text : List Char) : ∃ content, Content quote content ∧
    (text = content ∨ text = content ++ ['\\'] ∨ ∃ rest, text = content ++ quote :: rest) := by
  match text with
  | [] => exact ⟨[], .nil, .inl rfl⟩
  | c :: cs =>
    by_cases hq : c = quote
    · subst hq
      exact ⟨[], .nil, .inr (.inr ⟨cs, rfl⟩)⟩
    by_cases hb : c = '\\'
    · subst hb
      match cs with
      | [] => exact ⟨[], .nil, .inr (.inl rfl)⟩
      | d :: cs =>
        obtain ⟨content, h, rfl | rfl | ⟨rest, rfl⟩⟩ := exists_content quote cs
        · exact ⟨_, h.escape d, .inl rfl⟩
        · exact ⟨_, h.escape d, .inr (.inl rfl)⟩
        · exact ⟨_, h.escape d, .inr (.inr ⟨rest, rfl⟩)⟩
    · obtain ⟨content, h, rfl | rfl | ⟨rest, rfl⟩⟩ := exists_content quote cs
      · exact ⟨_, h.plain hq hb, .inl rfl⟩
      · exact ⟨_, h.plain hq hb, .inr (.inl rfl)⟩
      · exact ⟨_, h.plain hq hb, .inr (.inr ⟨rest, rfl⟩)⟩

theorem exists_literal (quote : Char) (text : List Char) :
    ∃ more rest, text = more ++ rest ∧ Literal quote (quote :: more) rest := by
  obtain ⟨content, h, rfl | rfl | ⟨rest, rfl⟩⟩ := exists_content quote text
  · exact ⟨text, [], by simp, .unclosed h⟩
  · exact ⟨content ++ ['\\'], [], by simp, .escaping h⟩
  · exact ⟨content ++ [quote], rest, by simp, .closed h rest⟩

theorem Literal.quotedLength_eq {more : List Char} (h : Literal quote (quote :: more) rest)
    (hq : quote ≠ '\\') : quotedLength quote (more ++ rest) 0 = more.length := by
  cases h with
  | closed h =>
    rw [List.append_assoc, quotedLength_content h hq]
    cases rest <;> simp [quotedLength]
  | unclosed h =>
    rw [quotedLength_content h hq]
    simp [quotedLength]
  | escaping h =>
    rw [List.append_assoc, quotedLength_content h hq]
    simp [quotedLength]

end Literals

section Comments
variable {inner rest : List Char}

theorem commentLength_skip {c : Char} {cs : List Char} (h : ¬commentEnd <+: c :: cs) (n : Nat) :
    commentLength (c :: cs) n = commentLength cs (n + 1) := by
  rw [commentLength.eq_def]
  split
  · next heq =>
    cases heq
    exact absurd (List.prefix_append commentEnd _) h
  · next heq =>
    cases heq
    rfl
  · next heq => cases heq

theorem commentLength_closed (h : ¬commentEnd <:+: inner ++ ['*']) (n : Nat) :
    commentLength (inner ++ (commentEnd ++ rest)) n = n + (inner ++ commentEnd).length := by
  induction inner generalizing n with
  | nil => rfl
  | cons c inner ih =>
    rw [List.cons_append, List.infix_cons_iff, not_or] at h
    have hstart : ¬commentEnd <+: c :: (inner ++ (commentEnd ++ rest)) := by
      -- The end would stand within the characters up to the star.
      intro hp
      apply h.1
      have hstar : c :: (inner ++ ['*']) <+: c :: (inner ++ (commentEnd ++ rest)) :=
        ⟨'/' :: rest, by simp [commentEnd]⟩
      exact List.prefix_of_prefix_length_le hp hstar (by simp [commentEnd])
    rw [List.cons_append, commentLength_skip hstart, ih h.2, List.cons_append, List.length_cons]
    omega

theorem commentLength_unclosed (h : ¬commentEnd <:+: inner) (n : Nat) :
    commentLength inner n = n + inner.length := by
  induction inner generalizing n with
  | nil => rfl
  | cons c inner ih =>
    rw [List.infix_cons_iff, not_or] at h
    rw [commentLength_skip h.1, ih h.2, List.length_cons]
    omega

theorem exists_commentEnd (text : List Char) : ¬commentEnd <:+: text ∨
    ∃ inner rest, text = inner ++ (commentEnd ++ rest) ∧ ¬commentEnd <:+: inner ++ ['*'] := by
  induction text with
  | nil => exact .inl (by simp [commentEnd])
  | cons c text ih =>
    by_cases hp : commentEnd <+: c :: text
    · obtain ⟨rest, hrest⟩ := hp
      exact .inr ⟨[], rest, hrest.symm, by decide⟩
    · rcases ih with h | ⟨inner, rest, rfl, h⟩
      · left
        rw [List.infix_cons_iff]
        exact not_or.mpr ⟨hp, h⟩
      · refine .inr ⟨c :: inner, rest, rfl, ?_⟩
        rw [List.cons_append, List.infix_cons_iff]
        refine not_or.mpr ⟨?_, h⟩
        intro hc
        apply hp
        refine hc.trans ⟨'/' :: rest, by simp [commentEnd]⟩

theorem exists_blockComment (text : List Char) :
    ∃ more rest, '*' :: text = more ++ rest ∧ BlockComment ('/' :: more) rest := by
  rcases exists_commentEnd text with h | ⟨inner, rest, rfl, h⟩
  · exact ⟨'*' :: text, [], by simp, .unclosed h⟩
  · exact ⟨'*' :: (inner ++ commentEnd), rest, by simp, .closed h rest⟩

end Comments

section Lexemes
variable {c : Char} {more rest text : List Char} {kind : Kind}

theorem Lexeme.ne_nil (h : Lexeme kind text rest) : text ≠ [] := by
  cases h with
  | whitespace hne => exact hne
  | blockComment h => cases h <;> simp
  | string _ h | template h => cases h <;> simp
  | @symbol s _ _ hs =>
    obtain ⟨x, hx⟩ | ⟨x, y, hx⟩ := s.spelling_cases <;> simp [← hs, hx]
  | _ => simp

theorem startsComment_cons : StartsComment (c :: text) ↔
    c = '/' ∧ (text.head? = some '/' ∨ text.head? = some '*') := by
  cases text with
  | nil => simp [StartsComment]
  | cons d text => simp [StartsComment, List.cons_prefix_cons, eq_comm, and_or_left]

theorem Literal.head {quote : Char} (h : Literal quote (c :: more) rest) : c = quote := by
  cases h <;> rfl

/-- A character that starts neither layout nor a literal. -/
structure Bare (c : Char) : Prop where
  blank : Text.isBlank c = false
  quotes : c ≠ '"' ∧ c ≠ '\'' ∧ c ≠ '\x60'

theorem ne_of_class {p : Char → Bool} {d : Char} (hc : p c = true) (hd : p d = false) : c ≠ d := by
  rintro rfl
  rw [hc] at hd
  cases hd

theorem bare_of_class {p : Char → Bool} (hc : p c = true) (hb : Text.isBlank c = false)
    (hq : p '"' = false ∧ p '\'' = false ∧ p '\x60' = false) : Bare c :=
  ⟨hb, ne_of_class hc hq.1, ne_of_class hc hq.2.1, ne_of_class hc hq.2.2⟩

theorem bare_of_isDigit (hc : c.isDigit = true) : Bare c :=
  bare_of_class hc (Text.isBlank_of_isDigit hc) (by decide)

theorem bare_of_startsWord (hc : startsWord c = true) : Bare c ∧ c.isDigit = false := by
  have hclass : Text.isBlank c = false ∧ c.isDigit = false := by
    simp only [startsWord, Bool.or_eq_true, beq_iff_eq] at hc
    rcases hc with hl | rfl
    · exact ⟨Text.isBlank_of_isLetter hl, Text.isDigit_of_isLetter hl⟩
    · decide
  exact ⟨bare_of_class hc hclass.1 (by decide), hclass.2⟩

theorem bare_of_symbol {s : Symbol} (hs : s.spelling = c :: more) :
    Bare c ∧ c.isDigit = false ∧ startsWord c = false := by
  cases s <;> cases hs <;> exact ⟨⟨by decide, by decide⟩, by decide, by decide⟩

/-- The rules that are left for such a character where no comment starts. -/
theorem lexeme?_bare (hb : Bare c) (hc : ¬StartsComment (c :: text)) :
    lexeme? c text =
      if c.isDigit then some (.number, (text.takeWhile fun d => d.isDigit || d == '.').length)
      else if startsWord c then
        some ((Keyword.ofSpelling? (String.ofList (c :: text.takeWhile isWordPart))).elim
          .identifier .keyword, (text.takeWhile isWordPart).length)
      else (Symbol.longest? c text).map fun s => (.symbol s, s.spelling.length - 1) := by
  obtain ⟨hblank, hdouble, hsingle, htemplate⟩ := hb
  have hn : c ≠ '\n' := by
    rintro rfl
    cases hblank
  rw [startsComment_cons] at hc
  have hline : ¬(c = '/' ∧ text.head? = some '/') := fun h => hc ⟨h.1, .inl h.2⟩
  have hblock : ¬(c = '/' ∧ text.head? = some '*') := fun h => hc ⟨h.1, .inr h.2⟩
  simp [lexeme?, startsWord, hblank, hdouble, hsingle, htemplate, hn, hline, hblock]

theorem lexeme?_word (hc : startsWord c = true) (h : LongestRun isWordPart more rest) :
    lexeme? c (more ++ rest) =
      some ((Keyword.ofSpelling? (String.ofList (c :: more))).elim .identifier .keyword,
        more.length) := by
  obtain ⟨hbare, hd⟩ := bare_of_startsWord hc
  have hslash : c ≠ '/' := ne_of_class hc (by decide)
  rw [lexeme?_bare hbare (by simp [startsComment_cons, hslash]), h.takeWhile_eq]
  simp [hd, hc]

/-- A token that starts by the grammar is the one that is found. -/
theorem Lexeme.lexeme?_eq (h : Lexeme kind (c :: more) rest) :
    lexeme? c (more ++ rest) = some (kind, more.length) := by
  have hslash : Text.isBlank '/' = false := by decide
  cases h with
  | newline => rfl
  | whitespace _ h =>
    have hc := h.inside c (by simp)
    have hrun : LongestRun _ more rest := ⟨fun d hd => h.inside d (by simp [hd]), h.stops⟩
    simp only [Bool.and_eq_true, bne_iff_ne, ne_eq] at hc
    simp [lexeme?, hc, hrun.takeWhile_eq]
  | @lineComment run _ h =>
    -- The second slash is in the run that is taken after the first one.
    have hrun : LongestRun (· != '\n') ('/' :: run) rest := ⟨by simpa using h.inside, h.stops⟩
    rw [lexeme?, hrun.takeWhile_eq]
    simp [hslash]
  | blockComment h =>
    cases h with
    | closed h =>
      simp only [lexeme?, List.cons_append, List.append_assoc, List.head?_cons, List.tail_cons,
        commentLength_closed h]
      simp [hslash, Nat.add_comm]
    | unclosed h =>
      simp only [lexeme?, List.append_nil, List.head?_cons, List.tail_cons,
        commentLength_unclosed h]
      simp [hslash, Nat.add_comm]
  | string hq h =>
    cases h.head
    have hb : Text.isBlank '"' = false ∧ Text.isBlank '\'' = false := by decide
    rcases hq with rfl | rfl
    · simp [lexeme?, hb, h.quotedLength_eq]
    · simp [lexeme?, hb, h.quotedLength_eq]
  | template h =>
    cases h.head
    have hb : Text.isBlank '\x60' = false := by decide
    simp [lexeme?, hb, h.quotedLength_eq]
  | number hc h =>
    have hslash : c ≠ '/' := ne_of_class hc (by decide)
    rw [lexeme?_bare (bare_of_isDigit hc) (by simp [startsComment_cons, hslash]), h.takeWhile_eq]
    simp [hc]
  | keyword k hc h hk =>
    rw [lexeme?_word hc h, Keyword.ofSpelling?_eq_some.mpr hk]
    rfl
  | identifier hc h hk =>
    have hnone : Keyword.ofSpelling? (String.ofList (c :: more)) = none := by
      rw [Option.eq_none_iff_forall_ne_some]
      intro k hk'
      exact hk k (Keyword.ofSpelling?_eq_some.mp hk')
    rw [lexeme?_word hc h, hnone]
    rfl
  | symbol hs h hc =>
    obtain ⟨hbare, hd, hw⟩ := bare_of_symbol hs
    rw [List.cons_append] at h hc
    rw [lexeme?_bare hbare hc, Symbol.longest?_eq_some.mpr h]
    simp [hd, hw, hs]

theorem exists_word (hc : startsWord c = true) (text : List Char) :
    ∃ kind more rest, text = more ++ rest ∧ Lexeme kind (c :: more) rest := by
  obtain ⟨run, rest, rfl, h⟩ := exists_longestRun isWordPart text
  by_cases hk : ∃ k : Keyword, k.spelling = String.ofList (c :: run)
  · obtain ⟨k, hk⟩ := hk
    exact ⟨.keyword k, run, rest, rfl, .keyword k hc h hk⟩
  · exact ⟨.identifier, run, rest, rfl, .identifier hc h (not_exists.mp hk)⟩

/-- A slash may start a comment; any other symbol is itself. -/
theorem exists_symbol (hc : symbolStarts.contains c = true) (text : List Char) :
    ∃ kind more rest, text = more ++ rest ∧ Lexeme kind (c :: more) rest := by
  by_cases hcomment : StartsComment (c :: text)
  · obtain ⟨rfl, htext | htext⟩ := startsComment_cons.mp hcomment
    · obtain ⟨text, rfl⟩ := List.head?_eq_some_iff.mp htext
      obtain ⟨run, rest, rfl, h⟩ := exists_longestRun (· != '\n') text
      exact ⟨.comment, '/' :: run, rest, rfl, .lineComment h⟩
    · obtain ⟨text, rfl⟩ := List.head?_eq_some_iff.mp htext
      obtain ⟨more, rest, htext, h⟩ := exists_blockComment text
      exact ⟨.comment, more, rest, htext, .blockComment h⟩
  · rw [← longest?_isSome c text, Option.isSome_iff_exists] at hc
    obtain ⟨s, hs⟩ := hc
    have hlongest := Symbol.longest?_eq_some.mp hs
    obtain ⟨rest, hrest⟩ := hlongest.starts
    obtain ⟨d, more, hspell⟩ : ∃ d more, s.spelling = d :: more := by
      obtain ⟨x, hx⟩ | ⟨x, y, hx⟩ := s.spelling_cases
      · exact ⟨x, [], hx⟩
      · exact ⟨x, [y], hx⟩
    rw [hspell] at hrest
    cases hrest
    exact ⟨.symbol s, more, rest, rfl, .symbol hspell hlongest hcomment⟩

/-- Where a token can start, the grammar has one. -/
theorem exists_lexeme (hc : startsToken c = true) (text : List Char) :
    ∃ kind more rest, text = more ++ rest ∧ Lexeme kind (c :: more) rest := by
  simp only [startsToken, Bool.or_eq_true, beq_iff_eq, or_assoc] at hc
  rcases hc with hb | hd | hl | rfl | rfl | rfl | rfl | hs
  · by_cases hn : c = '\n'
    · subst hn
      exact ⟨.newline, [], text, rfl, .newline text⟩
    · obtain ⟨run, rest, rfl, h⟩ := exists_longestRun (fun c => Text.isBlank c && c != '\n') text
      refine ⟨.whitespace, run, rest, rfl, .whitespace (by simp) ⟨?_, h.stops⟩⟩
      simpa [hb, hn] using h.inside
  · obtain ⟨run, rest, rfl, h⟩ := exists_longestRun (fun d => d.isDigit || d == '.') text
    exact ⟨.number, run, rest, rfl, .number hd h⟩
  · exact exists_word (by simp [startsWord, hl]) text
  · exact exists_word (by decide) text
  · obtain ⟨more, rest, rfl, h⟩ := exists_literal '"' text
    exact ⟨.string, more, rest, rfl, .string (.inl rfl) h⟩
  · obtain ⟨more, rest, rfl, h⟩ := exists_literal '\'' text
    exact ⟨.string, more, rest, rfl, .string (.inr rfl) h⟩
  · obtain ⟨more, rest, rfl, h⟩ := exists_literal '\x60' text
    exact ⟨.template, more, rest, rfl, .template h⟩
  · exact exists_symbol hs text

/-- Where a token starts by the grammar, and only there, it is found. -/
theorem lexeme?_eq_some {n : Nat} : lexeme? c text = some (kind, n) ↔
    ∃ more rest, text = more ++ rest ∧ more.length = n ∧ Lexeme kind (c :: more) rest := by
  constructor
  · intro h
    have hc : startsToken c = true := by rw [← lexeme?_isSome c text, h]; rfl
    obtain ⟨kind', more, rest, rfl, hlex⟩ := exists_lexeme hc text
    rw [hlex.lexeme?_eq] at h
    cases h
    exact ⟨more, rest, rfl, rfl, hlex⟩
  · rintro ⟨more, rest, rfl, rfl, hlex⟩
    exact hlex.lexeme?_eq

end Lexemes

variable {place : Location} {c : Char} {cs text rest : List Char} {kind : Kind} {ts : List Token}

theorem segments_token (h : Lexeme kind text rest) :
    segments (text ++ rest) = .token kind text :: segments rest := by
  cases text with
  | nil => exact absurd rfl h.ne_nil
  | cons c more =>
    rw [List.cons_append, segments, h.lexeme?_eq]
    simp

theorem lexeme?_eq_none : lexeme? c rest = none ↔ startsToken c = false := by
  rw [← lexeme?_isSome c rest, Option.isSome_eq_false_iff, Option.isNone_iff_eq_none]

theorem segments_dropped (h : startsToken c = false) :
    segments (c :: rest) = .dropped c :: segments rest := by
  rw [segments, lexeme?_eq_none.mpr h]

theorem not_lexeme_iff :
    (∀ kind text after, text ++ after = c :: rest → ¬Lexeme kind text after) ↔
      startsToken c = false := by
  constructor
  · intro h
    by_contra hc
    obtain ⟨kind, more, after, rfl, hlex⟩ := exists_lexeme (Bool.not_eq_false _ ▸ hc) rest
    exact h kind (c :: more) after rfl hlex
  · intro hc kind text after htext hlex
    cases text with
    | nil => exact hlex.ne_nil rfl
    | cons d more =>
      cases htext
      have hfound := hlex.lexeme?_eq
      rw [lexeme?_eq_none.mpr hc] at hfound
      cases hfound

theorem tokens_placed (place : Location) (cs : List Char) :
    Tokens place cs (placed place (segments cs)) := by
  fun_induction segments cs generalizing place with
  | case1 => exact .done place
  | case2 c rest h ih =>
    exact .dropped (not_lexeme_iff.mpr (lexeme?_eq_none.mp h)) (ih (place.step c))
  | case3 c text kind n h ih =>
    obtain ⟨more, rest, rfl, rfl, hlex⟩ := lexeme?_eq_some.mp h
    simp only [List.take_left, List.drop_left] at ih ⊢
    exact .token hlex (ih (place.advance (c :: more)))

theorem Tokens.eq_placed (h : Tokens place cs ts) : ts = placed place (segments cs) := by
  induction h with
  | done place => simp [segments, placed]
  | token h _ ih =>
    rw [segments_token h, ih]
    rfl
  | dropped h _ ih =>
    rw [segments_dropped (not_lexeme_iff.mp h), ih]
    rfl

/-- The tokens of a source are those of the lexical grammar, and no others are. -/
theorem scan_eq_iff (source : String) (ts : List Token) :
    scan source = ts ↔ Tokens .start source.toList ts := by
  rw [scan_eq]
  constructor
  · rintro rfl
    exact tokens_placed .start source.toList
  · intro h
    exact h.eq_placed.symm

end Folio.Token
