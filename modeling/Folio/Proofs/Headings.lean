import Folio.Proofs.Grammar
import Folio.Proofs.SortedMaps

/-! What the heading of a statement is read as: each part of it comes back from the tokens that write
it, in front of any token that the part cannot go on with. -/

namespace Folio

namespace Heading
open Token (Kind)
open Grammar

variable {ts rest : List Token}

/-- The kind of the next token, or `eof` where none is left. -/
def nextKind (ts : List Token) : Kind := ts.head?.elim .eof (·.kind)

@[simp]
theorem nextKind_cons (t : Token) (ts : List Token) : nextKind (t :: ts) = t.kind := rfl

theorem skip_next {kind : Kind} {t : Token} (h : t.kind = kind) : skip kind (t :: rest) = rest := by
  simp [skip, h]

theorem skip_other {kind : Kind} (h : nextKind ts ≠ kind) : skip kind ts = ts := by
  cases ts with
  | nil => rfl
  | cons t ts => exact if_neg h

theorem identifier?_none (h : nextKind ts ≠ .identifier) : identifier? ts = (none, ts) := by
  cases ts with
  | nil => rfl
  | cons t ts => exact if_neg h

theorem identifier?_writes {x : String} (h : Writes [.name x] ts rest) :
    identifier? ts = (some x, rest) := by
  obtain ⟨t, more, rfl, ⟨hk, rfl⟩, hm⟩ := writes_cons.mp h
  simp [identifier?, hk, writes_nil.mp hm]

theorem string?_none (h : nextKind ts ≠ .string) : string? ts = (none, ts) := by
  cases ts with
  | nil => rfl
  | cons t ts => exact if_neg h

theorem string?_writes {x : String} (h : Writes [.literal x] ts rest) :
    string? ts = (some x, rest) := by
  obtain ⟨t, more, rfl, ⟨hk, rfl⟩, hm⟩ := writes_cons.mp h
  simp [string?, hk, writes_nil.mp hm]

/-- A name is read back, or found missing where the next token is none. -/
theorem name_writes {x : Option String} (h : Writes (nameMarks x) ts rest)
    (hn : x = none → nextKind rest ≠ .identifier) : name ts = (x.getD "", rest) := by
  cases x with
  | none =>
    obtain rfl := writes_nil.mp h
    simp [name, identifier?_none (hn rfl)]
  | some x => simp [name, identifier?_writes h]

/-- Attributes are read up to the brace after them, and each is put into the map in turn. -/
theorem attributesFrom_writes {es : List (String × String)} {brace : Token} (done : Attributes)
    (h : Writes (es.flatMap pairMarks) ts (brace :: rest)) (hb : brace.kind = .symbol .leftBrace) :
    attributesFrom done ts =
      (es.foldl (fun m e => m.insert e.1 e.2) done, brace :: rest) := by
  induction es generalizing ts done with
  | nil =>
    obtain rfl := writes_nil.mp h
    unfold attributesFrom
    simp [endsAttributes, hb]
  | cons e es ih =>
    obtain ⟨mid, hp, hm⟩ := writes_append.mp h
    obtain ⟨k, _, rfl, ⟨hk, hkt⟩, hp⟩ := writes_cons.mp hp
    obtain ⟨a, _, rfl, ha, hp⟩ := writes_cons.mp hp
    obtain ⟨v, _, rfl, ⟨hv, hvt⟩, hp⟩ := writes_cons.mp hp
    obtain rfl := writes_nil.mp hp
    have ha : a.kind = .symbol .assign := ha
    simp only [attributesFrom, hk, ha, hv, hkt, hvt, ih _ hm, endsAttributes, Kind.opensConstruct]
    simp

theorem attributes_writes {attributes : Attributes} {brace : Token}
    (h : Writes (attributeMarks attributes) ts (brace :: rest))
    (hb : brace.kind = .symbol .leftBrace) :
    Heading.attributes ts = (attributes, brace :: rest) := by
  rw [Heading.attributes, attributesFrom_writes .empty h hb]
  exact congrArg (·, brace :: rest) (SortedMap.ofList_entries attributes)

/-- Names are read up to the bracket after them. -/
theorem namesFrom_writes {names : List String} {close : Symbol} {bracket : Token}
    (done : List String) (h : Writes (commas (names.map fun n => [.name n])) ts (bracket :: rest))
    (hb : bracket.kind = .symbol close) (hc : close ≠ .comma) :
    namesFrom close done ts = (done.reverse ++ names, bracket :: rest) := by
  induction names generalizing ts done with
  | nil =>
    obtain rfl := writes_nil.mp h
    simp [namesFrom, hb]
  | cons n names ih =>
    cases names with
    | nil =>
      obtain ⟨t, _, rfl, ⟨hk, rfl⟩, hm⟩ := writes_cons.mp h
      obtain rfl := writes_nil.mp hm
      simp [namesFrom, hk, hb]
    | cons next names =>
      obtain ⟨t, _, rfl, ⟨hk, rfl⟩, hm⟩ := writes_cons.mp h
      obtain ⟨c, more, rfl, hcomma, hm⟩ := writes_cons.mp hm
      have hcomma : c.kind = .symbol .comma := hcomma
      have hskip : namesFrom close (t.text :: done) (c :: more) =
          namesFrom close (t.text :: done) more := by
        simp [namesFrom, hcomma, hc.symm]
      rw [namesFrom]
      simp [hk, hskip, ih (t.text :: done) hm]

/-- A list of names in brackets is read back, or found missing where no bracket opens it. -/
theorem names_writes {names : List String} {opening close : Symbol}
    (h : Writes (listMarks opening close names) ts rest) (hc : close ≠ .comma)
    (hn : names = [] → nextKind rest ≠ .symbol opening) :
    Heading.names opening close ts = (names, rest) := by
  cases names with
  | nil =>
    obtain rfl := writes_nil.mp h
    cases ts with
    | nil => rfl
    | cons t ts => exact if_neg (hn rfl)
  | cons n names =>
    obtain ⟨t, _, rfl, ht, h⟩ := writes_cons.mp h
    obtain ⟨mid, hl, h⟩ := writes_append.mp h
    obtain ⟨bracket, _, rfl, hb, h⟩ := writes_cons.mp h
    obtain rfl := writes_nil.mp h
    have ht : t.kind = .symbol opening := ht
    simp [Heading.names, ht, namesFrom_writes [] hl hb hc, skip_next hb]

section Definition
variable {depth : Nat} {done : List String} {t : Token} {before kinds : List Kind} {kind : Kind}

theorem definitionFrom_eof (h : nextKind ts = .eof) :
    definitionFrom depth done ts = (done.reverse, ts) := by
  cases ts with
  | nil => rw [definitionFrom]
  | cons t ts =>
    rw [definitionFrom.eq_def]
    exact if_pos h

theorem definitionFrom_open (h : t.kind = .symbol .leftBrace) :
    definitionFrom depth done (t :: ts) = definitionFrom (depth + 1) (t.text :: done) ts := by
  rw [definitionFrom.eq_def]
  simp [h]

theorem definitionFrom_close (h : t.kind = .symbol .rightBrace) :
    definitionFrom (depth + 1) done (t :: ts) = definitionFrom depth (t.text :: done) ts := by
  rw [definitionFrom.eq_def]
  simp [h]

/-- Outside all braces, a definition ends before whatever may stand only inside them. -/
theorem definitionFrom_end (h : t.kind = .symbol .rightBrace ∨ endsDefinition t.kind = true) :
    definitionFrom 0 done (t :: ts) = (done.reverse, t :: ts) := by
  rw [definitionFrom.eq_def]
  rcases h with h | h
  · simp [h]
  · have hl : t.kind ≠ .symbol .leftBrace := by
      intro hl
      simp [hl, endsDefinition, Kind.opensConstruct] at h
    have hs : (decide (t.kind = .symbol .rightBrace) || decide (t.kind = .symbol .semicolon) ||
        t.kind.opensConstruct) = true := by
      rw [Bool.or_assoc]
      exact Bool.or_eq_true_iff.mpr (Or.inr h)
    simp [hl, hs]

theorem definitionFrom_piece (he : t.kind ≠ .eof) (hl : t.kind ≠ .symbol .leftBrace)
    (hr : t.kind ≠ .symbol .rightBrace) (hd : depth = 0 → endsDefinition t.kind = false) :
    definitionFrom depth done (t :: ts) = definitionFrom depth (t.text :: done) ts := by
  rw [definitionFrom.eq_def]
  cases depth with
  | zero =>
    have hd := hd rfl
    simp only [endsDefinition] at hd
    simp [he, hl, hr, hd]
  | succ inner => simp [he, hl, hr]

/-- Whether a definition with `depth` open braces ends before a token of this kind. -/
def EndsDefinition (depth : Nat) (kind : Kind) : Prop :=
  kind = .eof ∨ depth = 0 ∧ (kind = .symbol .rightBrace ∨ endsDefinition kind = true)

/-- How many braces are open after a token of this kind. -/
def depthAfter (depth : Nat) (kind : Kind) : Nat :=
  if kind = .symbol .leftBrace then depth + 1
  else if kind = .symbol .rightBrace then depth - 1 else depth

theorem definitionFrom_ends (h : EndsDefinition depth (nextKind ts)) :
    definitionFrom depth done ts = (done.reverse, ts) := by
  rcases h with he | ⟨rfl, hk⟩
  · exact definitionFrom_eof he
  · cases ts with
    | nil => rw [definitionFrom]
    | cons t ts => exact definitionFrom_end hk

theorem definitionFrom_goes (h : ¬EndsDefinition depth t.kind) :
    definitionFrom depth done (t :: ts) =
      definitionFrom (depthAfter depth t.kind) (t.text :: done) ts := by
  by_cases hl : t.kind = .symbol .leftBrace
  · rw [definitionFrom_open hl, depthAfter, if_pos hl]
  rw [depthAfter, if_neg hl]
  by_cases hr : t.kind = .symbol .rightBrace
  · obtain ⟨inner, rfl⟩ := Nat.exists_eq_add_one_of_ne_zero fun hz => h (.inr ⟨hz, .inl hr⟩)
    rw [definitionFrom_close hr, if_pos hr, Nat.add_sub_cancel]
  · rw [if_neg hr, definitionFrom_piece (fun he => h (.inl he)) hl hr fun hz => ?_]
    exact Bool.eq_false_iff.mpr fun hd => h (.inr ⟨hz, .inr hd⟩)

/-- Tokens of these kinds can be the start of a definition: it ends before none of them. -/
def Unended (kinds : List Kind) : Prop :=
  ∀ before kind, before ++ [kind] <+: kinds → ¬EndsDefinition (openBraces before) kind

theorem Unended.of_prefix (h : Unended kinds) (hp : before <+: kinds) : Unended before :=
  fun p kind hk => h p kind (hk.trans hp)

/-- A definition closes no brace that it did not open. -/
theorem Unended.count_le (h : Unended kinds) :
    kinds.count (.symbol .rightBrace) ≤ kinds.count (.symbol .leftBrace) := by
  induction kinds using List.reverseRecOn with
  | nil => exact Nat.le_refl _
  | append_singleton before kind ih =>
    have hle := ih (h.of_prefix (List.prefix_append _ _))
    by_cases hr : kind = .symbol .rightBrace
    · have hopen : openBraces before ≠ 0 := fun hz => h _ _ List.prefix_rfl (.inr ⟨hz, .inl hr⟩)
      rw [openBraces] at hopen
      have hclose : (before ++ [kind]).count (.symbol .rightBrace) =
          before.count (.symbol .rightBrace) + 1 := by simp [hr]
      have hother : (before ++ [kind]).count (.symbol .leftBrace) =
          before.count (.symbol .leftBrace) := by simp [hr]
      omega
    · have hclose : (before ++ [kind]).count (.symbol .rightBrace) =
          before.count (.symbol .rightBrace) := by simp [hr]
      rw [hclose, List.count_append]
      exact Nat.le_add_right_of_le hle

/-- The depth that is kept from token to token is the number of open braces. -/
theorem Unended.depthAfter (h : Unended before) (kind : Kind) :
    depthAfter (openBraces before) kind = openBraces (before ++ [kind]) := by
  have hle := h.count_le
  rw [Heading.depthAfter]
  split
  · next hl => simp [hl, openBraces, Nat.sub_add_comm hle]
  · next hl =>
    split
    · next hr => simp [hr, openBraces, Nat.sub_sub]
    · next hr => simp [hl, hr, openBraces]

/-- A definition is read up to where it ends. -/
theorem definitionFrom_span (before : List Kind) {span : List Token}
    (h : Unended (before ++ span.map (·.kind)))
    (hr : EndsDefinition (openBraces (before ++ span.map (·.kind))) (nextKind rest)) :
    definitionFrom (openBraces before) done (span ++ rest) =
      (done.reverse ++ span.map (·.text), rest) := by
  induction span generalizing before done with
  | nil =>
    rw [List.map_nil, List.append_nil] at hr ⊢
    exact definitionFrom_ends hr
  | cons t span ih =>
    rw [List.map_cons, List.append_cons] at h hr
    have hgoes := h before t.kind (List.prefix_append _ _)
    have hbefore := h.of_prefix ((List.prefix_append before [t.kind]).trans (List.prefix_append _ _))
    rw [List.cons_append, definitionFrom_goes hgoes, hbefore.depthAfter, ih (before ++ [t.kind]) h hr]
    simp

theorem definition_span {span : List Token} (h : Unended (span.map (·.kind)))
    (hr : EndsDefinition (openBraces (span.map (·.kind))) (nextKind rest)) :
    definition (span ++ rest) = (" ".intercalate (span.map (·.text)), rest) := by
  have hspan : definitionFrom 0 [] (span ++ rest) = (span.map (·.text), rest) :=
    definitionFrom_span [] h hr
  simp [definition, hspan]

end Definition

/-- Tokens that are written piece by piece have the kinds and texts of the pieces. -/
theorem exists_of_writes_pieces {ps : List (Kind × String)}
    (h : Writes (ps.map fun p => .piece p.1 p.2) ts rest) :
    ∃ span, ts = span ++ rest ∧ span.map (·.kind) = ps.map Prod.fst ∧
      span.map (·.text) = ps.map Prod.snd := by
  induction ps generalizing ts with
  | nil => exact ⟨[], writes_nil.mp h, rfl, rfl⟩
  | cons p ps ih =>
    obtain ⟨t, more, rfl, ⟨hk, ht⟩, hm⟩ := writes_cons.mp h
    obtain ⟨span, rfl, hkinds, htexts⟩ := ih hm
    exact ⟨t :: span, rfl, by simp [hk, hkinds], by simp [ht, htexts]⟩

theorem unended_pieces (d : Definition) : Unended (d.pieces.map Prod.fst) := by
  rintro before kind ⟨after, hafter⟩ hends
  have hbal := hafter ▸ d.balanced
  rw [List.append_assoc, List.singleton_append, eq_comm, List.map_eq_append_iff] at hafter
  obtain ⟨ps, qs, hd, rfl, hqs⟩ := hafter
  obtain ⟨p, qs, rfl, rfl, -⟩ := List.map_eq_cons_iff.mp hqs
  rcases hends with he | ⟨hz, hr | hin⟩
  · exact (d.plain p (by simp [hd])).1 he
  · -- The piece closes a brace, so one more is open before it than after it.
    have hle := hbal.count_le
    rw [openBraces] at hz
    simp only [hr, List.count_append, List.count_singleton, beq_self_eq_true, ↓reduceIte,
      beq_iff_eq, Kind.symbol.injEq, reduceCtorEq] at hle
    omega
  · have hopen := d.inside ps.length (by simp [hd]) (by simpa [hd] using hin)
    simp [hd, hz] at hopen

/-- The definition of a type is read up to the semicolon after it. -/
theorem definition_writes (d : Definition) {semi : Token} (h : Writes d.marks ts (semi :: rest))
    (hs : semi.kind = .symbol .semicolon) : definition ts = (d.text, semi :: rest) := by
  obtain ⟨span, rfl, hkinds, htexts⟩ := exists_of_writes_pieces h
  have hz : openBraces (d.pieces.map Prod.fst) = 0 := by
    rw [openBraces, d.balanced.2, Nat.sub_self]
  have hends : EndsDefinition (openBraces (span.map (·.kind))) (nextKind (semi :: rest)) :=
    .inr ⟨hkinds ▸ hz, .inr (by simp [endsDefinition, hs])⟩
  rw [definition_span (hkinds ▸ unended_pieces d) hends, htexts, Definition.text]

/-- One specifier is read in front of anything but `as`. -/
theorem specifiersFrom_one {s : Specifier} {braced : Bool} {done : List String}
    (h : Writes s.marks ts rest) (hn : nextKind rest ≠ .keyword .renamed) :
    specifiersFrom braced done ts = specifiersFrom braced (s.text :: done) rest := by
  obtain ⟨t, more, rfl, ht, hm⟩ := writes_cons.mp h
  have hk : (decide (t.kind = .identifier) || decide (t.kind = .symbol .multiply)) = true ∧
      t.text = s.name.getD "*" := by
    cases hs : s.name <;> simp only [hs, Option.elim] at ht <;> simp [ht.1, ht.2]
  rw [specifiersFrom.eq_def]
  simp only [hk.1, hk.2, ↓reduceIte]
  cases ho : s.other with
  | none =>
    simp only [ho, Option.elim] at hm
    obtain rfl := writes_nil.mp hm
    cases more with
    | nil => simp [specifiersFrom, Specifier.text, ho]
    | cons next more =>
      have hn : next.kind ≠ .keyword .renamed := hn
      simp [hn, Specifier.text, ho]
  | some other =>
    simp only [ho, Option.elim] at hm
    obtain ⟨as, _, rfl, has, hm⟩ := writes_cons.mp hm
    obtain ⟨o, _, rfl, ⟨hok, hot⟩, hm⟩ := writes_cons.mp hm
    obtain rfl := writes_nil.mp hm
    have has : as.kind = .keyword .renamed := has
    simp [has, hok, hot, Specifier.text, ho, String.append_assoc]

/-- Specifiers in braces are read up to the closing brace, which belongs to them. -/
theorem specifiersFrom_writes {specs : List Specifier} {brace : Token} (done : List String)
    (h : Writes (commas (specs.map Specifier.marks)) ts (brace :: rest))
    (hb : brace.kind = .symbol .rightBrace) :
    specifiersFrom true done ts = (done.reverse ++ specs.map Specifier.text, rest) := by
  have hclose (done : List String) : specifiersFrom true done (brace :: rest) = (done.reverse, rest) := by
    unfold specifiersFrom
    simp [hb]
  induction specs generalizing ts done with
  | nil =>
    obtain rfl := writes_nil.mp h
    simp [hclose]
  | cons s specs ih =>
    cases specs with
    | nil =>
      rw [specifiersFrom_one (s := s) h (by simp [hb]), hclose]
      simp
    | cons next specs =>
      obtain ⟨mid, hs, hm⟩ := writes_append.mp h
      obtain ⟨c, more, rfl, hc, hm⟩ := writes_cons.mp hm
      have hc : c.kind = .symbol .comma := hc
      rw [specifiersFrom_one hs (by simp [hc])]
      unfold specifiersFrom
      simp [hc, ih _ hm]

theorem specifiers_writes {specs : List Specifier} (h : Writes (specifierMarks specs) ts rest) :
    specifiers ts = (specs.map Specifier.text, rest) := by
  obtain ⟨t, more, rfl, ht, hm⟩ := writes_cons.mp h
  obtain ⟨mid, hs, hm⟩ := writes_append.mp hm
  obtain ⟨brace, _, rfl, hb, hm⟩ := writes_cons.mp hm
  obtain rfl := writes_nil.mp hm
  have ht : t.kind = .symbol .leftBrace := ht
  simp [specifiers, ht, specifiersFrom_writes [] hs hb]

/-- The path of a module is read back, or found missing where no `from` comes next. -/
theorem source?_writes {source : Option String} (h : Writes (sourceMarks source) ts rest)
    (hn : source = none → nextKind rest ≠ .keyword .source) : source? ts = (source, rest) := by
  cases source with
  | none =>
    obtain rfl := writes_nil.mp h
    cases ts with
    | nil => rfl
    | cons t ts => exact if_neg (hn rfl)
  | some path =>
    obtain ⟨t, more, rfl, ht, hm⟩ := writes_cons.mp h
    have ht : t.kind = .keyword .source := ht
    simp [source?, ht, string?_writes hm]

theorem target?_writes {target : String} (h : Writes [.name "on", .name target] ts rest) :
    target? ts = (some target, rest) := by
  obtain ⟨t, more, rfl, ⟨hk, ht⟩, hm⟩ := writes_cons.mp h
  simp [target?, hk, ht, identifier?_writes hm]

theorem target?_none (h : ∀ t ∈ ts.head?, t.kind = .identifier → t.text ≠ "on") :
    target? ts = (none, ts) := by
  cases ts with
  | nil => rfl
  | cons t ts =>
    have ht := h t rfl
    simp only [target?]
    rw [if_neg]
    simpa using ht

/-- The path and the component of a route, both of which may be missing. -/
theorem route_writes {path component : Option String}
    (h : Writes (headerMarks (.route path component)) ts rest)
    (hn : component = none → nextKind rest = .symbol .leftBrace) :
    ∃ mid, string? ts = (path, mid) ∧ identifier? (skip (.symbol .arrow) mid) = (component, rest) := by
  have hpath {mid : List Token} (h : Writes (path.map Mark.literal).toList ts mid)
      (hm : nextKind mid ≠ .string) : string? ts = (path, mid) := by
    cases path with
    | none =>
      obtain rfl := writes_nil.mp h
      exact string?_none hm
    | some path => exact string?_writes h
  cases component with
  | none =>
    have hn := hn rfl
    exact ⟨rest, hpath h (by simp [hn]), by
      rw [skip_other (by simp [hn]), identifier?_none (by simp [hn])]⟩
  | some component =>
    obtain ⟨mid, hp, hm⟩ := writes_append.mp h
    obtain ⟨arrow, more, rfl, ha, hm⟩ := writes_cons.mp hm
    have ha : arrow.kind = .symbol .arrow := ha
    exact ⟨arrow :: more, hpath hp (by simp [ha]), by rw [skip_next ha, identifier?_writes hm]⟩

section Title
variable {brace : Token} {attributes : Attributes}

/-- Attributes start with a key, or they are missing and the brace after them comes next. -/
theorem next_of_attributes (h : Writes (attributeMarks attributes) ts (brace :: rest))
    (hb : brace.kind = .symbol .leftBrace) :
    nextKind ts = .symbol .leftBrace ∨
      nextKind ts = .identifier ∧ ∃ e ∈ attributes.entries.head?, ∀ t ∈ ts.head?, t.text = e.1 := by
  cases he : attributes.entries with
  | nil =>
    rw [attributeMarks, he] at h
    obtain rfl := writes_nil.mp h
    exact Or.inl hb
  | cons e es =>
    rw [attributeMarks, he] at h
    obtain ⟨t, more, rfl, ⟨hk, ht⟩, -⟩ := writes_cons.mp h
    refine Or.inr ⟨hk, e, rfl, ?_⟩
    rintro _ ⟨⟩
    exact ht

theorem next_of_empty (h : Writes (attributeMarks attributes) ts (brace :: rest))
    (hb : brace.kind = .symbol .leftBrace) (he : attributes = .empty) :
    nextKind ts = .symbol .leftBrace := by
  subst he
  obtain rfl := writes_nil.mp h
  exact hb

theorem next_of_list {opening close : Symbol} {names : List String}
    (h : Writes (listMarks opening close names) ts rest) (hn : names ≠ []) :
    nextKind ts = .symbol opening := by
  cases names with
  | nil => exact absurd rfl hn
  | cons n names =>
    obtain ⟨t, _, rfl, ht, -⟩ := writes_cons.mp h
    exact ht

/-- A name and a list of names in brackets, both of which may be missing, in front of attributes. -/
theorem named_list_writes {opening close : Symbol} {name : Option String} {names : List String}
    {mid last : List Token} (hn : Writes (nameMarks name) ts mid)
    (hl : Writes (listMarks opening close names) mid last)
    (ha : Writes (attributeMarks attributes) last (brace :: rest))
    (hb : brace.kind = .symbol .leftBrace) (hc : close ≠ .comma) (ho : opening ≠ .leftBrace)
    (hd : name.isSome ∨ names ≠ [] ∨ attributes = .empty) :
    Heading.name ts = (name.getD "", mid) ∧ Heading.names opening close mid = (names, last) := by
  constructor
  · apply name_writes hn
    rintro rfl
    by_cases he : names = []
    · subst he
      obtain rfl := writes_nil.mp hl
      rw [next_of_empty ha hb (by simpa using hd)]
      simp
    · rw [next_of_list hl he]
      simp
  · apply names_writes hl hc
    intro _
    rcases next_of_attributes ha hb with h | ⟨h, -⟩
    · simp [h, ho.symm]
    · simp [h]

/-- The name and the target of an event, both of which may be missing, in front of attributes. -/
theorem event_writes {name target : Option String} {mid last : List Token}
    (hn : Writes (nameMarks name) ts mid) (ht : Writes (headerMarks (.event target)) mid last)
    (ha : Writes (attributeMarks attributes) last (brace :: rest))
    (hb : brace.kind = .symbol .leftBrace) (hd : Distinct name attributes (.event target)) :
    Heading.name ts = (name.getD "", mid) ∧ target? mid = (target, last) := by
  cases target with
  | none =>
    obtain rfl := writes_nil.mp ht
    constructor
    · apply name_writes hn
      rintro rfl
      rw [next_of_empty ha hb (by simpa using hd.1)]
      simp
    · apply target?_none
      intro t ht hk hon
      -- A key `on` would read as the word in front of a target.
      rcases next_of_attributes ha hb with h | ⟨-, e, he, hkey⟩
      · cases mid <;> simp_all
      · exact hd.2 e he (hkey t ht ▸ hon)
  | some target =>
    refine ⟨?_, target?_writes ht⟩
    apply name_writes hn
    rintro rfl
    cases hd

/-- The heading of a construct is read back from the tokens that write it. -/
theorem opening_writes (title : Title) (location : Location)
    (h : Writes title.marks ts (brace :: rest)) (hb : brace.kind = .symbol .leftBrace) :
    opening title.header.keyword location ts =
      some (.construct title.header (title.name.getD "") title.attributes, brace :: rest) := by
  obtain ⟨header, name, attributes, distinct⟩ := title
  obtain ⟨mid, hname, h⟩ := writes_append.mp h
  obtain ⟨last, hheader, hattributes⟩ := writes_append.mp h
  dsimp only at hname hheader hattributes ⊢
  have hopened (header : Header) (name : String) :
      opened header name last = (.construct header name attributes, brace :: rest) := by
    rw [opened, attributes_writes hattributes hb]
  have hempty (he : attributes = .empty) : nextKind last = .symbol .leftBrace :=
    next_of_empty hattributes hb he
  cases header with
  | plain block =>
    obtain rfl := writes_nil.mp hheader
    have hn : Heading.name ts = (name.getD "", mid) := by
      apply name_writes hname
      rintro rfl
      rw [hempty (by simpa [Distinct] using distinct)]
      simp
    simp [opening, Header.keyword, hn, hopened]
  | component names =>
    obtain ⟨hn, hl⟩ := named_list_writes hname hheader hattributes hb (by simp) (by simp) distinct
    simp [opening, Header.keyword, hn, hl, hopened]
  | hook names =>
    obtain ⟨hn, hl⟩ := named_list_writes hname hheader hattributes hb (by simp) (by simp) distinct
    simp [opening, Header.keyword, hn, hl, hopened]
  | event target =>
    obtain ⟨hn, ht⟩ := event_writes hname hheader hattributes hb distinct
    simp [opening, Header.keyword, hn, ht, hopened]
  | route path component =>
    obtain ⟨rfl, hcomponent⟩ := distinct
    obtain rfl := writes_nil.mp hname
    obtain ⟨mid, hp, hc⟩ := route_writes hheader (by
      rintro rfl
      exact hempty (by simpa using hcomponent))
    simp [opening, Header.keyword, hp, hc, hopened]
  | type definition =>
    obtain ⟨rfl, rfl⟩ := distinct
    obtain rfl := writes_nil.mp hheader
    obtain rfl := writes_nil.mp hattributes
    have hn : Heading.name ts = (name.getD "", brace :: rest) := by
      apply name_writes hname
      rintro rfl
      simp [hb]
    simp [opening, Header.keyword, Heading.type, hn, hb]

end Title

end Heading

end Folio
