import Folio.Proofs.Lookahead

/-! How much the definition of a type takes of any tokens, balanced or not: all up to the first token
that ends it. Such a token is looked for outside the braces that the definition itself has opened, so
the brace that closes a block around a type is never taken by the type. -/

namespace Folio.Heading
open Token (Kind)
open Grammar

variable {ts rest span other tail : List Token} {t : Token} {before kinds : List Kind} {kind : Kind}

theorem unended_nil : Unended [] := by
  intro before kind h
  simp at h

theorem Unended.concat (h : Unended before) (hk : ¬EndsDefinition (openBraces before) kind) :
    Unended (before ++ [kind]) := by
  intro p k hp
  rcases List.prefix_concat_iff.mp hp with heq | hp
  · obtain ⟨rfl, rfl⟩ := List.append_singleton_inj.mp heq
    exact hk
  · exact h p k hp

/-- A definition in which no brace is left open is balanced. -/
theorem Unended.balanced (h : Unended kinds) (hz : openBraces kinds = 0) : Balanced kinds := by
  constructor
  · intro p hp
    exact (h.of_prefix ((List.mem_inits p kinds).mp hp)).count_le
  · exact Nat.le_antisymm h.count_le (Nat.sub_eq_zero_iff_le.mp hz)

/-- Any tokens can be cut where a definition that goes on with them ends. -/
theorem exists_spanFrom (h : Unended before) (ts : List Token) :
    ∃ span rest, ts = span ++ rest ∧ Unended (before ++ span.map (·.kind)) ∧
      EndsDefinition (openBraces (before ++ span.map (·.kind))) (nextKind rest) := by
  induction ts generalizing before with
  | nil => exact ⟨[], [], rfl, by simpa using h, .inl rfl⟩
  | cons t ts ih =>
    by_cases hends : EndsDefinition (openBraces before) t.kind
    · exact ⟨[], t :: ts, rfl, by simpa using h, by simpa using hends⟩
    · obtain ⟨span, rest, rfl, hspan, hrest⟩ := ih (h.concat hends)
      rw [← List.append_cons] at hspan hrest
      exact ⟨t :: span, rest, rfl, hspan, hrest⟩

theorem exists_span (ts : List Token) :
    ∃ span rest, ts = span ++ rest ∧ Unended (span.map (·.kind)) ∧
      EndsDefinition (openBraces (span.map (·.kind))) (nextKind rest) :=
  exists_spanFrom unended_nil ts

/-- What can be the start of a definition goes no further than to a token that ends it. -/
theorem Unended.prefix_of_ends (h : Unended (other.map (·.kind))) (hp : other <+: span ++ rest)
    (hr : EndsDefinition (openBraces (span.map (·.kind))) (nextKind rest)) : other <+: span := by
  rcases List.prefix_or_prefix_of_prefix hp (List.prefix_append span rest) with hle | ⟨more, rfl⟩
  · exact hle
  · cases more with
    | nil => rw [List.append_nil]
    | cons t more =>
      -- Here `t` would be the token that ends the definition, and still stand in it.
      obtain ⟨after, rfl⟩ := (List.prefix_append_right_inj span).mp hp
      exact absurd hr (h _ _ (by simp))

/-- The tokens `tail` at the end of `ts` begin with a brace that closes a block around `ts`: no brace
in front of it is open. -/
def ClosesBlock (ts tail : List Token) : Prop :=
  ∃ inside, ts = inside ++ tail ∧ openBraces (inside.map (·.kind)) = 0 ∧
    nextKind tail = .symbol .rightBrace

theorem ClosesBlock.pass (h : ClosesBlock (t :: ts) tail) (hl : t.kind ≠ .symbol .leftBrace)
    (hr : t.kind ≠ .symbol .rightBrace) : ClosesBlock ts tail := by
  obtain ⟨inside, hts, hz, hnext⟩ := h
  cases inside with
  | nil =>
    subst hts
    exact absurd hnext hr
  | cons u inside =>
    obtain ⟨rfl, rfl⟩ := List.cons.inj hts
    exact ⟨inside, rfl, by simpa [openBraces, hl, hr] using hz, hnext⟩

theorem ClosesBlock.suffix_rest (h : ClosesBlock (span ++ rest) tail)
    (hs : Unended (span.map (·.kind))) : tail <:+ rest := by
  obtain ⟨inside, hts, hz, hnext⟩ := h
  have hends : EndsDefinition (openBraces (inside.map (·.kind))) (nextKind tail) :=
    .inr ⟨hz, .inl hnext⟩
  obtain ⟨more, rfl⟩ := hs.prefix_of_ends (hts ▸ List.prefix_append span rest) hends
  rw [List.append_assoc] at hts
  exact ⟨more, (List.append_cancel_left hts).symm⟩

theorem ClosesBlock.name (h : ClosesBlock ts tail) : ClosesBlock (name ts).2 tail := by
  rw [Heading.name]
  by_cases hk : nextKind ts = .identifier
  · obtain ⟨t, ts, rfl, ht⟩ := exists_cons_of_nextKind hk (by simp)
    simpa [identifier?, ht] using h.pass (by simp [ht]) (by simp [ht])
  · rwa [identifier?_none hk]

theorem ClosesBlock.definition (h : ClosesBlock ts tail) : tail <:+ (definition ts).2 := by
  obtain ⟨span, rest, rfl, hspan, hrest⟩ := exists_span ts
  rw [definition_span hspan hrest]
  exact h.suffix_rest hspan

theorem suffix_skip (h : tail <:+ ts) (hk : nextKind tail ≠ kind) : tail <:+ skip kind ts := by
  cases ts with
  | nil => exact h
  | cons t ts =>
    rw [skip]
    split
    · next ht =>
      rcases List.suffix_cons_iff.mp h with rfl | h
      · exact absurd ht hk
      · exact h
    · exact h

/-- A type leaves the brace that closes the block around it. -/
theorem ClosesBlock.type (location : Location) (h : ClosesBlock ts tail) :
    tail <:+ (type location ts).2 := by
  have hname := h.name
  rw [type_eq, typeEnd]
  split
  · next hk =>
    obtain ⟨t, more, hmore, ht⟩ := exists_cons_of_nextKind hk (by simp)
    rw [hmore] at hname ⊢
    have hdef := (hname.pass (by simp [ht]) (by simp [ht])).definition
    obtain ⟨inside, -, -, hnext⟩ := h
    exact suffix_skip hdef (by simp [hnext])
  · obtain ⟨inside, hts, -, -⟩ := hname
    exact ⟨inside, hts.symm⟩

/-- The definition of a type takes the longest start of the tokens in which nothing ends it, and
leaves what ends it. It closes no brace that it did not open, and if more than the end is left it
closes all that it opened. Its text is that of its tokens with a blank between any two. So neither it
nor the rest of a type takes the brace that closes the block around them. -/
theorem definition_exact (ts : List Token) (cursor : Nat) :
    ∃ span rest, ts.drop cursor = span ++ rest ∧
      definition (ts.drop cursor) = (" ".intercalate (span.map (·.text)), rest) ∧
      Unended (span.map (·.kind)) ∧
      (∀ other, other <+: ts.drop cursor → Unended (other.map (·.kind)) → other <+: span) ∧
      EndsDefinition (openBraces (span.map (·.kind))) (nextKind rest) ∧
      (∀ kinds, kinds <+: span.map (·.kind) →
        kinds.count (.symbol .rightBrace) ≤ kinds.count (.symbol .leftBrace)) ∧
      (nextKind rest ≠ .eof → Balanced (span.map (·.kind))) ∧
      ∀ location tail, ClosesBlock (ts.drop cursor) tail →
        tail <:+ rest ∧ tail <:+ (type location (ts.drop cursor)).2 := by
  obtain ⟨span, rest, hts, hspan, hends⟩ := exists_span (ts.drop cursor)
  rw [hts]
  refine ⟨span, rest, rfl, definition_span hspan hends, hspan, ?_, hends, ?_, ?_, ?_⟩
  · intro other hp hother
    exact hother.prefix_of_ends hp hends
  · intro kinds hp
    exact (hspan.of_prefix hp).count_le
  · intro hne
    rcases hends with he | ⟨hz, -⟩
    · exact absurd he hne
    · exact hspan.balanced hz
  · intro location tail hclose
    exact ⟨hclose.suffix_rest hspan, hclose.type location⟩

/-- The tokens of a type in a page, from behind the brace that opens the page. -/
def pageTokens : List Token :=
  (Program.significant (Token.scan "page \x7b type T = \x7b a ; \x7d b \x7d state s")).drop 2

/-- The definition has braces of its own, and what ends it is the brace that closes the page. -/
theorem definition_exact_in_page :
    ClosesBlock (pageTokens.drop 3) (pageTokens.drop 8) ∧
      definition (pageTokens.drop 3) = ("\x7b a ; \x7d b", pageTokens.drop 8) ∧
      ∃ span, pageTokens.drop 3 = span ++ pageTokens.drop 8 ∧ Balanced (span.map (·.kind)) ∧
        ∀ location, pageTokens.drop 8 <:+ (type location (pageTokens.drop 3)).2 := by
  have hclose : ClosesBlock (pageTokens.drop 3) (pageTokens.drop 8) :=
    ⟨(pageTokens.drop 3).take 5, by decide +kernel, by decide +kernel, by decide +kernel⟩
  have htext : definition (pageTokens.drop 3) = ("\x7b a ; \x7d b", pageTokens.drop 8) := by
    decide +kernel
  obtain ⟨span, rest, hts, hdefinition, -, -, -, -, hbalanced, hleft⟩ :=
    definition_exact pageTokens 3
  obtain rfl : rest = pageTokens.drop 8 := congrArg Prod.snd (hdefinition.symm.trans htext)
  refine ⟨hclose, htext, span, hts, hbalanced (by decide +kernel), ?_⟩
  intro location
  exact (hleft location _ hclose).2

end Folio.Heading
