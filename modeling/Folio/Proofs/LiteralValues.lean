import Folio.Proofs.Layout

/-! The values of literals. The tokenizer finds the end of a literal from the left, in steps of one
character or of a backslash and the character behind it; the value of a token is found from the right,
by counting backslashes. Both agree on which quotes are escaped. -/

namespace Folio.Token

section Escapes
variable {quote c : Char} {cs content left right : List Char}

theorem endsEscaped_concat (cs : List Char) (c : Char) :
    endsEscaped (cs ++ [c]) = (c == '\\' && !endsEscaped cs) := by
  by_cases hc : c = '\\'
  · subst hc
    simp only [endsEscaped, List.reverse_append, List.reverse_singleton, List.singleton_append,
      List.takeWhile_cons, beq_self_eq_true, if_true, List.length_cons, Bool.true_and]
    rcases Nat.mod_two_eq_zero_or_one (cs.reverse.takeWhile (· == '\\')).length with h | h
    · simp [Nat.add_mod, h]
    · simp [Nat.add_mod, h]
  · simp [endsEscaped, hc]

theorem endsEscaped_pair (h : endsEscaped cs = false) (c : Char) :
    endsEscaped (cs ++ ['\\', c]) = false := by
  have hpair : cs ++ ['\\', c] = cs ++ ['\\'] ++ [c] := by simp
  rw [hpair, endsEscaped_concat, endsEscaped_concat, h]
  simp

/-- Behind what no character escapes, the inside of a literal leaves no character escaped either. -/
theorem Content.endsEscaped_append (h : Content quote content) (before : List Char)
    (hb : endsEscaped before = false) : endsEscaped (before ++ content) = false := by
  induction h generalizing before with
  | nil => simpa using hb
  | @plain c cs _ hc _ ih =>
    have hnext : endsEscaped (before ++ [c]) = false := by simp [endsEscaped_concat, hc]
    simpa using ih _ hnext
  | @escape c cs _ ih => simpa using ih _ (endsEscaped_pair hb c)

theorem Content.not_endsEscaped (h : Content quote content) : endsEscaped content = false :=
  h.endsEscaped_append [] rfl

/-- Each quote inside of a literal is escaped. -/
theorem Content.escaped_append (h : Content quote content) (hq : quote ≠ '\\')
    (hc : content = left ++ quote :: right) (before : List Char) (hb : endsEscaped before = false) :
    endsEscaped (before ++ left) = true := by
  induction h generalizing before left with
  | nil => simp at hc
  | @plain c cs hcq hcb _ ih =>
    cases left with
    | nil => exact absurd (List.cons.inj hc).1 hcq
    | cons d left =>
      rw [List.cons_append, List.cons.injEq] at hc
      obtain ⟨rfl, hc⟩ := hc
      have hnext : endsEscaped (before ++ [c]) = false := by simp [endsEscaped_concat, hcb]
      simpa using ih hc _ hnext
  | @escape c cs _ ih =>
    match left with
    | [] => exact absurd (List.cons.inj hc).1 hq.symm
    | [d] =>
      obtain ⟨rfl, -⟩ := List.cons.inj hc
      simp [endsEscaped_concat, hb]
    | d :: e :: left =>
      simp only [List.cons_append, List.cons.injEq] at hc
      obtain ⟨rfl, rfl, hc⟩ := hc
      simpa using ih hc _ (endsEscaped_pair hb c)

/-- Whether each quote in a text has an odd run of backslashes before it. -/
def QuotesEscaped (quote : Char) (cs : List Char) : Prop :=
  ∀ left right, cs = left ++ quote :: right → endsEscaped left = true

theorem Content.quotesEscaped (h : Content quote content) (hq : quote ≠ '\\') :
    QuotesEscaped quote content :=
  fun _ _ hc => h.escaped_append hq hc [] rfl

/-- Read from the left or from the right, the inside of a literal is the same. -/
theorem content_iff (hq : quote ≠ '\\') :
    Content quote cs ↔ QuotesEscaped quote cs ∧ endsEscaped cs = false := by
  constructor
  · intro h
    exact ⟨h.quotesEscaped hq, h.not_endsEscaped⟩
  · rintro ⟨hquotes, hend⟩
    obtain ⟨content, h, rfl | rfl | ⟨rest, rfl⟩⟩ := exists_content quote cs
    · exact h
    · rw [endsEscaped_concat, h.not_endsEscaped] at hend
      cases hend
    · have hbefore := hquotes content rest rfl
      rw [h.not_endsEscaped] at hbefore
      cases hbefore

end Escapes

section Reading
variable {quote : Char} {content rest inner : List Char}

/-- Reads a literal behind the quote that opens it: how many characters are taken, and whether it
ends at a quote, and not where the text does. -/
def readLiteral (quote : Char) : List Char → Nat × Bool
  | [] => (0, false)
  | [c] => (1, c = quote)
  | c :: d :: cs =>
    if c = quote then (1, true)
    else if c = '\\' then
      let (n, closed) := readLiteral quote cs
      (n + 2, closed)
    else
      let (n, closed) := readLiteral quote (d :: cs)
      (n + 1, closed)

/-- The tokenizer takes as many characters. -/
theorem quotedLength_eq_read (quote : Char) (cs : List Char) (n : Nat) :
    quotedLength quote cs n = n + (readLiteral quote cs).1 := by
  fun_induction quotedLength quote cs n with
  | case1 | case2 => rfl
  | case3 n d cs => simp [readLiteral]
  | case4 d cs n hq ih =>
    simp [readLiteral, hq, ih]
    omega
  | case5 c d cs n hq hc ih =>
    simp [readLiteral, hq, hc, ih]
    omega

theorem readLiteral_content (h : Content quote content) (hq : quote ≠ '\\') (rest : List Char) :
    (readLiteral quote (content ++ rest)).2 = (readLiteral quote rest).2 := by
  induction h with
  | nil => rfl
  | @plain c cs hc hb _ ih =>
    rw [← ih, List.cons_append]
    cases cs ++ rest with
    | nil => simp [readLiteral, hc]
    | cons d ds => simp [readLiteral, hc, hb]
  | @escape c cs _ ih => simp [readLiteral, hq.symm, ih]

theorem Literal.readLiteral_eq (h : Literal quote (quote :: inner) rest) (hq : quote ≠ '\\') :
    readLiteral quote (inner ++ rest) = (inner.length, (readLiteral quote (inner ++ rest)).2) := by
  have hlength := h.quotedLength_eq hq
  rw [quotedLength_eq_read, Nat.zero_add] at hlength
  rw [← hlength]

end Reading

section Values
variable {quote : Char} {kind : Kind} {cs text content inner after : List Char} {t : Token}

theorem QuotesEscaped.concat (h : QuotesEscaped quote cs) (hq : quote ≠ '\\') :
    QuotesEscaped quote (cs ++ ['\\']) := by
  intro left right heq
  obtain rfl | ⟨right, c, rfl⟩ := List.eq_nil_or_concat right
  · exact absurd (List.append_singleton_inj.mp heq).2.symm hq
  · rw [List.concat_eq_append, ← List.cons_append, ← List.append_assoc] at heq
    exact h left right (List.append_singleton_inj.mp heq).1

theorem unquoted_closed (h : Content quote content) :
    unquoted (quote :: (content ++ [quote])) = content := by
  simp [unquoted, h.not_endsEscaped]

/-- A quote that is escaped closes nothing, even at the end. -/
theorem unquoted_open (h : QuotesEscaped quote inner) : unquoted (quote :: inner) = inner := by
  rw [unquoted, if_neg]
  intro hlast
  simp only [Bool.and_eq_true, decide_eq_true_eq, Bool.not_eq_true'] at hlast
  obtain ⟨before, rfl⟩ := List.getLast?_eq_some_iff.mp hlast.1
  rw [List.dropLast_concat, h before [] rfl] at hlast
  cases hlast.2

/-- The kind of literal that a quote opens. -/
def literalKind (quote : Char) : Option Kind :=
  if quote = '"' ∨ quote = '\'' then some .string
  else if quote = '\x60' then some .template
  else none

theorem ne_backslash_of_literalKind (h : literalKind quote = some kind) : quote ≠ '\\' := by
  rintro rfl
  cases h

theorem value_of_literalKind (h : literalKind quote = some t.kind) :
    t.value = String.ofList (unquoted t.text.toList) := by
  unfold literalKind at h
  rw [value]
  split at h
  · rw [← Option.some.inj h]
  · split at h
    · rw [← Option.some.inj h]
    · cases h

/-- A literal with the quote that opens it, `after` behind it in its source, and whether the tokenizer
ended it at a quote. -/
structure Delimited (quote : Char) (closed : Bool) (t : Token) (after : List Char) : Prop where
  kind : literalKind quote = some t.kind
  read : ∃ inner, t.text.toList = quote :: inner ∧
    readLiteral quote (inner ++ after) = (inner.length, closed)
  between : closed = true → t.text.toList = quote :: (t.value.toList ++ [quote])
  behind : closed = false → t.text.toList = quote :: t.value.toList ∧ after = []
  escaped : QuotesEscaped quote t.value.toList

theorem delimited_closed (ht : t.text.toList = quote :: (content ++ [quote]))
    (h : Content quote content) (hk : literalKind quote = some t.kind) (after : List Char) :
    Delimited quote true t after := by
  have hq := ne_backslash_of_literalKind hk
  have hv : t.value.toList = content := by
    rw [value_of_literalKind hk, String.toList_ofList, ht, unquoted_closed h]
  have hread : (readLiteral quote (content ++ [quote] ++ after)).2 = true := by
    rw [List.append_assoc, readLiteral_content h hq]
    cases after <;> simp [readLiteral]
  refine ⟨hk, ⟨_, ht, ?_⟩, fun _ => by rw [ht, hv], nofun, hv ▸ h.quotesEscaped hq⟩
  rw [(Literal.closed h after).readLiteral_eq hq, hread]

theorem delimited_open (ht : t.text.toList = quote :: inner) (h : Literal quote (quote :: inner) [])
    (hescaped : QuotesEscaped quote inner) (hread : (readLiteral quote inner).2 = false)
    (hk : literalKind quote = some t.kind) : Delimited quote false t [] := by
  have hv : t.value.toList = inner := by
    rw [value_of_literalKind hk, String.toList_ofList, ht, unquoted_open hescaped]
  refine ⟨hk, ⟨inner, ht, ?_⟩, nofun, fun _ => ⟨by rw [ht, hv], rfl⟩, hv ▸ hescaped⟩
  rw [h.readLiteral_eq (ne_backslash_of_literalKind hk), List.append_nil, hread]

/-- What is found from the left, up to the quote or the end, is what is cut off from the right. -/
theorem Literal.delimited (h : Literal quote t.text.toList after)
    (hk : literalKind quote = some t.kind) : ∃ closed, Delimited quote closed t after := by
  have hq := ne_backslash_of_literalKind hk
  generalize ht : t.text.toList = text at h
  cases h with
  | closed h => exact ⟨true, delimited_closed ht h hk after⟩
  | @unclosed content h =>
    have hread : (readLiteral quote (content ++ [])).2 = false := readLiteral_content h hq []
    rw [List.append_nil] at hread
    exact ⟨false, delimited_open ht (.unclosed h) (h.quotesEscaped hq) hread hk⟩
  | @escaping content h =>
    have hread : (readLiteral quote (content ++ ['\\'])).2 = false := by
      rw [readLiteral_content h hq]
      simp [readLiteral, hq.symm]
    exact ⟨false, delimited_open ht (.escaping h) ((h.quotesEscaped hq).concat hq) hread hk⟩

theorem Lexeme.literal (h : Lexeme kind text after) (hk : kind = .string ∨ kind = .template) :
    ∃ quote, literalKind quote = some kind ∧ Literal quote text after := by
  rcases hk with rfl | rfl
  · cases h with
    | @string quote _ _ hq h => exact ⟨quote, by simp [literalKind, hq], h⟩
  · cases h with
    | template h => exact ⟨_, rfl, h⟩

theorem lexeme_literal (hk : literalKind quote = some kind) (h : Literal quote text after) :
    Lexeme kind text after := by
  unfold literalKind at hk
  split at hk
  · next hq =>
    cases hk
    exact .string hq h
  · split at hk
    · next hq =>
      cases hk
      subst hq
      exact .template h
    · cases hk

end Values

/-- The value of a literal is what stands between its quotes, or behind the one that opens it where the
source ends too early, and each quote in it is escaped. Any text whose quotes and backslashes are
escaped is the value of the literal that is made of it. -/
theorem literal_values :
    (∀ (source : String) (i : Nat) (t : Token), (scan source)[i]? = some t →
      t.kind = .string ∨ t.kind = .template →
      ∃ before after quote closed,
        (textsBefore [] (segments source.toList))[i]? = some before ∧
          source.toList = before ++ t.text.toList ++ after ∧ Delimited quote closed t after) ∧
    ∀ quote kind body, literalKind quote = some kind → Content quote body →
      ∃ t last, scan (String.ofList (quote :: (body ++ [quote]))) = [t, ⟨.eof, "", last⟩] ∧
        t.kind = kind ∧ t.value = String.ofList body := by
  constructor
  · intro source i t ht hk
    rw [scan_eq] at ht
    have hnot : t.kind ≠ .eof := by
      rcases hk with hk | hk <;> simp [hk]
    obtain ⟨left, right, hss, hbefore⟩ := exists_segment [] ht hnot
    have hcut : Cut (left ++ .token t.kind t.text.toList :: right) :=
      hss ▸ cut_segments source.toList
    obtain ⟨quote, hquote, hliteral⟩ := hcut.behind.token.1.literal hk
    obtain ⟨closed, hdelimited⟩ := hliteral.delimited hquote
    refine ⟨_, _, quote, closed, hbefore, ?_, hdelimited⟩
    rw [← segments_text source.toList, hss]
    simp [Segment.text]
  · intro quote kind body hk hbody
    have hlexeme : Lexeme kind (quote :: (body ++ [quote])) [] :=
      lexeme_literal hk (.closed hbody [])
    refine ⟨⟨kind, String.ofList (quote :: (body ++ [quote])), .start⟩,
      Location.start.advance (quote :: (body ++ [quote])), ?_, rfl, ?_⟩
    · have hsegments := segments_token hlexeme
      rw [List.append_nil] at hsegments
      rw [scan_eq, String.toList_ofList, hsegments, segments]
      rfl
    · rw [value_of_literalKind (t := ⟨kind, _, _⟩) hk]
      simp [unquoted_closed hbody]

/-- A literal that ends in a backslash where its source ends, and a value with a quote in it. -/
theorem literal_values_sample :
    (scan "'a\\'b' \"c\\")[2]? = some ⟨.string, "\"c\\", ⟨1, 8⟩⟩ ∧
      (∃ before after quote closed,
        (textsBefore [] (segments "'a\\'b' \"c\\".toList))[2]? = some before ∧
          "'a\\'b' \"c\\".toList = before ++ "\"c\\".toList ++ after ∧
          Delimited quote closed ⟨.string, "\"c\\", ⟨1, 8⟩⟩ after) ∧
      Content '\'' ['a', '\\', '\''] ∧
      ∃ t last, scan (String.ofList ['\'', 'a', '\\', '\'', '\'']) = [t, ⟨.eof, "", last⟩] ∧
        t.kind = .string ∧ t.value = String.ofList ['a', '\\', '\''] := by
  have hscan : (scan "'a\\'b' \"c\\")[2]? = some ⟨.string, "\"c\\", ⟨1, 8⟩⟩ := by decide +kernel
  have hcontent : Content '\'' ['a', '\\', '\''] :=
    .plain (by decide) (by decide) (.escape '\'' .nil)
  have hmade := literal_values.2 '\'' .string ['a', '\\', '\''] rfl hcontent
  simp only [List.cons_append, List.nil_append] at hmade
  have hfound := literal_values.1 _ 2 _ hscan (.inl rfl)
  exact ⟨hscan, hfound, hcontent, hmade⟩

end Folio.Token
