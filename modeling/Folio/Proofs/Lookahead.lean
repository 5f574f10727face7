import Folio.Proofs.Headings

/-! How far the parts of a heading look. Each takes some tokens off the front, and of those behind
them it looks at the next one at most. So it takes the same tokens in front of all that start
alike. -/

namespace Folio.Heading
open Token (Kind)

variable {ts rest other taken : List Token} {t : Token}

/-- The next token, unless it is the end. -/
def peek : List Token → Option Token
  | [] => none
  | t :: _ => if t.kind = .eof then none else some t

@[simp]
theorem peek_nil : peek [] = none := rfl

theorem peek_cons (h : t.kind ≠ .eof) : peek (t :: ts) = some t := if_neg h

theorem peek_eof (h : t.kind = .eof) : peek (t :: ts) = none := if_pos h

theorem nextKind_eq_peek (ts : List Token) : nextKind ts = (peek ts).elim .eof (·.kind) := by
  cases ts with
  | nil => rfl
  | cons t ts =>
    by_cases h : t.kind = .eof
    · simp [peek_eof h, h]
    · simp [peek_cons h]

theorem nextKind_congr (h : peek rest = peek other) : nextKind rest = nextKind other := by
  rw [nextKind_eq_peek, nextKind_eq_peek, h]

theorem peek_append_congr (h : peek rest = peek other) (taken : List Token) :
    peek (taken ++ rest) = peek (taken ++ other) := by
  cases taken with
  | nil => exact h
  | cons t taken => rfl

theorem exists_cons_of_nextKind {kind : Kind} (h : nextKind ts = kind) (he : kind ≠ .eof) :
    ∃ t rest, ts = t :: rest ∧ t.kind = kind := by
  cases ts with
  | nil => exact absurd h.symm he
  | cons t ts => exact ⟨t, ts, rfl, h⟩

/-- Whether a token of this kind opens a list of names. -/
def opensList (kind : Kind) : Bool :=
  kind = .symbol .openingTagStart || kind = .symbol .leftParen

/-- What the heading of a keyword may take: never the end, and the keyword of a construct only in a
list of names or in a type. -/
structure Passed (k : Keyword) (taken : List Token) : Prop where
  inside : ∀ t ∈ taken, t.kind ≠ .eof
  openers : k = .type ∨ (∃ t ∈ taken, opensList t.kind = true) ∨
    ∀ t ∈ taken, t.kind.opensConstruct = false

variable {k : Keyword}

theorem Passed.of_forall (h : ∀ t ∈ taken, t.kind ≠ .eof ∧ t.kind.opensConstruct = false) :
    Passed k taken :=
  ⟨fun t ht => (h t ht).1, .inr (.inr fun t ht => (h t ht).2)⟩

theorem Passed.nil : Passed k [] := .of_forall (by simp)

theorem Passed.one (he : t.kind ≠ .eof) (ho : t.kind.opensConstruct = false) : Passed k [t] :=
  .of_forall (by simp [he, ho])

theorem Passed.of_kind {kind : Kind} (ht : t.kind = kind) (he : kind ≠ .eof)
    (ho : kind.opensConstruct = false) : Passed k [t] := by
  subst ht
  exact .one he ho

theorem Passed.append {more : List Token} (h : Passed k taken) (h' : Passed k more) :
    Passed k (taken ++ more) := by
  refine ⟨fun t ht => (List.mem_append.mp ht).elim (h.inside t) (h'.inside t), ?_⟩
  rcases h.openers with hk | ⟨t, ht, hl⟩ | hplain
  · exact .inl hk
  · exact .inr (.inl ⟨t, List.mem_append_left _ ht, hl⟩)
  · rcases h'.openers with hk | ⟨t, ht, hl⟩ | hplain'
    · exact .inl hk
    · exact .inr (.inl ⟨t, List.mem_append_right _ ht, hl⟩)
    · exact .inr (.inr fun t ht => (List.mem_append.mp ht).elim (hplain t) (hplain' t))

/-- A bracket lets a list of names take whatever stands in it. -/
theorem Passed.list (ht : opensList t.kind = true) (h : Passed .type taken) :
    Passed k (t :: taken) := by
  refine ⟨?_, .inr (.inl ⟨t, by simp, ht⟩)⟩
  intro u hu
  rcases List.mem_cons.mp hu with rfl | hu
  · intro he
    simp [he, opensList] at ht
  · exact h.inside u hu

variable {α β : Type}

/-- Of the tokens `ts`, a reader takes some that the heading of a keyword may take, and it would take
them in front of all tokens that start like those it leaves. -/
def TakesFrom (k : Keyword) (f : List Token → α × List Token) (ts : List Token) : Prop :=
  ∃ taken, Passed k taken ∧ ts = taken ++ (f ts).2 ∧
    ∀ rest, peek rest = peek (f ts).2 → f (taken ++ rest) = ((f ts).1, rest)

/-- A reader that takes tokens like this from all tokens. -/
def Takes (k : Keyword) (f : List Token → α × List Token) : Prop := ∀ ts, TakesFrom k f ts

variable {f : List Token → α × List Token} {g : List Token → β × List Token}

/-- A reader that takes nothing here. -/
theorem TakesFrom.done (x : α) (h : ∀ s, peek s = peek ts → f s = (x, s)) : TakesFrom k f ts := by
  have hts := h ts rfl
  refine ⟨[], .nil, by rw [hts]; rfl, ?_⟩
  intro rest hr
  rw [hts] at hr ⊢
  exact h rest hr

/-- A reader that goes on like another one after some tokens. -/
theorem TakesFrom.after {g : List Token → α × List Token} {inner : Keyword} (before : List Token)
    (hb : ∀ taken, Passed inner taken → Passed k (before ++ taken)) (hg : TakesFrom inner g ts)
    (h : ∀ s, peek s = peek ts → f (before ++ s) = g s) : TakesFrom k f (before ++ ts) := by
  obtain ⟨taken, hp, hts, hread⟩ := hg
  have hf := h ts rfl
  refine ⟨before ++ taken, hb taken hp, by rw [hf, List.append_assoc, ← hts], ?_⟩
  intro rest hr
  rw [hf] at hr ⊢
  rw [List.append_assoc, h (taken ++ rest), hread rest hr]
  rw [hts]
  exact peek_append_congr hr taken

theorem Takes.pure (x : α) : Takes k fun ts => (x, ts) :=
  fun _ => .done x fun _ _ => rfl

theorem Takes.map (hf : Takes k f) (c : α → β) : Takes k fun ts => (c (f ts).1, (f ts).2) := by
  intro ts
  obtain ⟨taken, hp, hts, hread⟩ := hf ts
  exact ⟨taken, hp, hts, fun rest hr => by simp only [hread rest hr]⟩

/-- One reader after the other. -/
theorem Takes.bind {g : α → List Token → β × List Token} (hf : Takes k f) (hg : ∀ x, Takes k (g x)) :
    Takes k fun ts => g (f ts).1 (f ts).2 := by
  intro ts
  obtain ⟨taken, hp, hts, hread⟩ := hf ts
  obtain ⟨taken', hp', hts', hread'⟩ := hg (f ts).1 (f ts).2
  refine ⟨taken ++ taken', hp.append hp', by rw [List.append_assoc, ← hts', ← hts], ?_⟩
  intro rest hr
  have hnext : peek (taken' ++ rest) = peek (f ts).2 := by
    rw [hts']
    exact peek_append_congr hr taken'
  simp only [List.append_assoc, hread _ hnext, hread' rest hr]

/-- A reader that looks whether the next token is of some sort, and if so takes it and goes on. -/
theorem Takes.choice (p : Token → Bool) (x : α) {g : Token → List Token → α × List Token}
    (hp : ∀ t, p t = true → t.kind ≠ .eof ∧ t.kind.opensConstruct = false) (hg : ∀ t, Takes k (g t))
    (hnext : ∀ t s, p t = true → f (t :: s) = g t s)
    (hother : ∀ s, (∀ t ∈ peek s, p t = false) → f s = (x, s)) : Takes k f := by
  intro ts
  by_cases h : ∀ t ∈ peek ts, p t = false
  · exact .done x fun s hs => hother s (hs ▸ h)
  · cases ts with
    | nil => simp at h
    | cons t ts =>
      have ht : p t = true := by
        by_cases he : t.kind = .eof
        · simp [peek_eof he] at h
        · simpa [peek_cons he] using h
      exact TakesFrom.after [t] (fun _ => (Passed.one (hp t ht).1 (hp t ht).2).append)
        (hg t ts) fun s _ => hnext t s ht

theorem nextKind_ne_of_peek {kind : Kind} (he : kind ≠ .eof)
    (h : ∀ t ∈ peek ts, decide (t.kind = kind) = false) : nextKind ts ≠ kind := by
  rw [nextKind_eq_peek]
  cases hp : peek ts with
  | none => exact he.symm
  | some t => simpa [hp] using h

theorem takes_skip {kind : Kind} (he : kind ≠ .eof) (ho : kind.opensConstruct = false) :
    Takes k fun ts => ((), Heading.skip kind ts) := by
  refine Takes.choice (·.kind = kind) () ?_ (fun _ => Takes.pure ()) ?_ ?_
  · intro t ht
    rw [of_decide_eq_true ht]
    exact ⟨he, ho⟩
  · intro t s ht
    rw [skip_next (of_decide_eq_true ht)]
  · intro s hs
    rw [skip_other (nextKind_ne_of_peek he hs)]

theorem takes_identifier? : Takes k identifier? := by
  refine Takes.choice (·.kind = .identifier) none ?_ (fun t => Takes.pure (some t.text)) ?_ ?_
  · intro t ht
    simp [of_decide_eq_true ht, Kind.opensConstruct]
  · intro t s ht
    simp [identifier?, of_decide_eq_true ht]
  · intro s hs
    exact identifier?_none (nextKind_ne_of_peek (by simp) hs)

theorem takes_string? : Takes k string? := by
  refine Takes.choice (·.kind = .string) none ?_ (fun t => Takes.pure (some t.value)) ?_ ?_
  · intro t ht
    simp [of_decide_eq_true ht, Kind.opensConstruct]
  · intro t s ht
    simp [string?, of_decide_eq_true ht]
  · intro s hs
    exact string?_none (nextKind_ne_of_peek (by simp) hs)

theorem takes_name : Takes k name := takes_identifier?.map (·.getD "")

theorem takes_target? : Takes k target? := by
  refine Takes.choice (fun t => t.kind = .identifier && t.text = "on") none ?_
    (fun _ => takes_identifier?) ?_ ?_
  · intro t ht
    simp only [Bool.and_eq_true, decide_eq_true_eq] at ht
    simp [ht.1, Kind.opensConstruct]
  · intro t s ht
    simp only [Bool.and_eq_true, decide_eq_true_eq] at ht
    simp [target?, ht]
  · intro s hs
    apply target?_none
    intro t ht hk
    cases s with
    | nil => cases ht
    | cons u s =>
      cases ht
      simpa [peek_cons (show t.kind ≠ .eof by simp [hk]), hk] using hs

theorem takes_source? : Takes k source? := by
  refine Takes.choice (·.kind = .keyword .source) none ?_ (fun _ => takes_string?) ?_ ?_
  · intro t ht
    simp [of_decide_eq_true ht, Kind.opensConstruct, Keyword.opensConstruct]
  · intro t s ht
    simp [source?, of_decide_eq_true ht]
  · intro s hs
    exact source?_writes (.nil s) fun _ => nextKind_ne_of_peek (by simp) hs

section Attributes
variable {done : Attributes} {a v : Token}

theorem attributesFrom_end (h : endsAttributes (nextKind ts) = true) :
    attributesFrom done ts = (done, ts) := by
  cases ts with
  | nil => rw [attributesFrom]
  | cons t ts =>
    rw [attributesFrom.eq_def]
    exact if_pos h

theorem attributesFrom_other (he : endsAttributes t.kind = false) (hi : t.kind ≠ .identifier) :
    attributesFrom done (t :: ts) = attributesFrom done ts := by
  rw [attributesFrom.eq_def]
  simp [he, hi]

theorem endsAttributes_identifier : endsAttributes .identifier = false := by decide

theorem attributesFrom_key (hi : t.kind = .identifier) (ha : nextKind ts ≠ .symbol .assign) :
    attributesFrom done (t :: ts) = attributesFrom done ts := by
  rw [attributesFrom.eq_def]
  cases ts with
  | nil => simp [hi, endsAttributes_identifier, attributesFrom]
  | cons a ts =>
    have ha : a.kind ≠ .symbol .assign := ha
    simp [hi, endsAttributes_identifier, ha]

theorem attributesFrom_assign (hi : t.kind = .identifier) (ha : a.kind = .symbol .assign)
    (hv : nextKind ts ≠ .string) :
    attributesFrom done (t :: a :: ts) = attributesFrom done ts := by
  rw [attributesFrom.eq_def]
  cases ts with
  | nil => simp [hi, endsAttributes_identifier, ha, attributesFrom]
  | cons v ts =>
    have hv : v.kind ≠ .string := hv
    simp [hi, endsAttributes_identifier, ha, hv]

theorem attributesFrom_pair (hi : t.kind = .identifier) (ha : a.kind = .symbol .assign)
    (hv : v.kind = .string) :
    attributesFrom done (t :: a :: v :: ts) = attributesFrom (done.insert t.text v.value) ts := by
  rw [attributesFrom.eq_def]
  simp [hi, endsAttributes_identifier, ha, hv]

theorem Passed.of_endsAttributes (h : ¬endsAttributes t.kind = true) : Passed k [t] := by
  simp only [endsAttributes, Bool.or_eq_true, decide_eq_true_eq, not_or] at h
  exact .one h.1.2 (by simpa using h.2)

/-- Attributes are taken one by one: a key with its value, a key alone, or what is no key. -/
theorem takes_attributesFrom (done : Attributes) (ts : List Token) :
    TakesFrom k (attributesFrom done) ts := by
  by_cases he : endsAttributes (nextKind ts) = true
  · exact .done done fun s hs => attributesFrom_end (nextKind_congr hs ▸ he)
  cases ts with
  | nil => exact absurd rfl he
  | cons t ts =>
    have ht : Passed k [t] := .of_endsAttributes he
    by_cases hi : t.kind = .identifier
    · by_cases ha : nextKind ts = .symbol .assign
      · obtain ⟨a, ts, rfl, ha⟩ := exists_cons_of_nextKind ha (by simp)
        have hta : Passed k [t, a] := ht.append (.of_kind ha (by simp) rfl)
        by_cases hv : nextKind ts = .string
        · obtain ⟨v, ts, rfl, hv⟩ := exists_cons_of_nextKind hv (by simp)
          have htav : Passed k [t, a, v] := hta.append (.of_kind hv (by simp) rfl)
          exact .after [t, a, v] (fun _ => htav.append) (takes_attributesFrom _ ts)
            fun s _ => attributesFrom_pair hi ha hv
        · exact .after [t, a] (fun _ => hta.append) (takes_attributesFrom done ts)
            fun s hs => attributesFrom_assign hi ha (nextKind_congr hs ▸ hv)
      · exact .after [t] (fun _ => ht.append) (takes_attributesFrom done ts)
          fun s hs => attributesFrom_key hi (nextKind_congr hs ▸ ha)
    · exact .after [t] (fun _ => ht.append) (takes_attributesFrom done ts)
        fun s _ => attributesFrom_other (by simpa using he) hi
termination_by ts.length

theorem takes_opened (header : Header) (name : String) : Takes k (opened header name) :=
  Takes.map (takes_attributesFrom .empty) (Opening.construct header name)

end Attributes

section Names
variable {close : Symbol} {done : List String}

theorem namesFrom_end
    (h : nextKind ts = .symbol close ∨ nextKind ts = .symbol .leftBrace ∨ nextKind ts = .eof) :
    namesFrom close done ts = (done.reverse, ts) := by
  cases ts with
  | nil => rw [namesFrom]
  | cons t ts =>
    rw [nextKind_cons] at h
    rw [namesFrom.eq_def]
    exact if_pos (by simpa [or_assoc] using h)

/-- In a list of names all is taken up to its end, keywords included. -/
theorem takes_namesFrom (close : Symbol) (done : List String) (ts : List Token) :
    TakesFrom .type (namesFrom close done) ts := by
  by_cases he : nextKind ts = .symbol close ∨ nextKind ts = .symbol .leftBrace ∨ nextKind ts = .eof
  · exact .done _ fun s hs => namesFrom_end (nextKind_congr hs ▸ he)
  cases ts with
  | nil => simp [nextKind] at he
  | cons t ts =>
    have ht : Passed .type [t] := ⟨by simpa using fun h => he (.inr (.inr h)), .inl rfl⟩
    have hn (s : List Token) : namesFrom close done (t :: s) =
        namesFrom close (if t.kind = .identifier then t.text :: done else done) s := by
      rw [nextKind_cons, not_or, not_or] at he
      rw [namesFrom.eq_def]
      simp only [he, decide_false, Bool.or_self, Bool.false_eq_true, ↓reduceIte]
      split <;> rfl
    exact .after [t] (fun _ => ht.append) (takes_namesFrom close _ ts) fun s _ => hn s
termination_by ts.length

theorem names_none {opening : Symbol} (h : nextKind ts ≠ .symbol opening) :
    names opening close ts = ([], ts) := by
  cases ts with
  | nil => rfl
  | cons t ts => exact if_neg h

theorem takes_names {opening : Symbol} (ho : opensList (.symbol opening) = true) :
    Takes k (names opening close) := by
  have hlist : Takes .type fun ts => ((namesFrom close [] ts).1,
      skip (.symbol close) (namesFrom close [] ts).2) :=
    Takes.bind (takes_namesFrom close []) fun names => (takes_skip (by simp) rfl).map fun _ => names
  intro ts
  by_cases h : nextKind ts = .symbol opening
  · obtain ⟨t, ts, rfl, ht⟩ := exists_cons_of_nextKind h (by simp)
    exact .after [t] (fun _ => .list (ht ▸ ho)) (hlist ts) fun s _ => by simp [names, ht]
  · exact .done [] fun s hs => names_none (nextKind_congr hs ▸ h)

end Names

/-- In the definition of a type all is taken up to its end, keywords in braces included. -/
theorem takes_definitionFrom (depth : Nat) (done : List String) (ts : List Token) :
    TakesFrom .type (definitionFrom depth done) ts := by
  induction ts generalizing depth done with
  | nil => exact .done _ fun s hs => definitionFrom_eof (nextKind_congr hs)
  | cons t ts ih =>
    by_cases he : EndsDefinition depth t.kind
    · exact .done _ fun s hs => definitionFrom_ends (nextKind_congr hs ▸ he)
    · have ht : Passed .type [t] := ⟨by simpa using fun h => he (.inl h), .inl rfl⟩
      exact .after [t] (fun _ => ht.append) (ih _ _) fun s _ => definitionFrom_goes he

theorem takes_definition : Takes .type definition :=
  Takes.map (takes_definitionFrom 0 []) (" ".intercalate ·)

section Specifiers
variable {braced : Bool} {done : List String} {as o : Token}

/-- Whether a specifier starts with a token of this kind. -/
def namesModulePart (kind : Kind) : Bool := kind = .identifier || kind = .symbol .multiply

theorem specifiersFrom_comma (h : t.kind = .symbol .comma) :
    specifiersFrom braced done (t :: ts) = specifiersFrom braced done ts := by
  rw [specifiersFrom.eq_def]
  simp [h]

theorem specifiersFrom_close (h : t.kind = .symbol .rightBrace) :
    specifiersFrom true done (t :: ts) = (done.reverse, ts) := by
  rw [specifiersFrom.eq_def]
  simp [h]

theorem specifiersFrom_end (hn : namesModulePart (nextKind ts) = false)
    (hc : nextKind ts ≠ .symbol .comma) (hb : braced = true → nextKind ts ≠ .symbol .rightBrace) :
    specifiersFrom braced done ts = (done.reverse, ts) := by
  cases ts with
  | nil => rw [specifiersFrom]
  | cons t ts =>
    rw [nextKind_cons] at hn hc hb
    rw [namesModulePart] at hn
    rw [specifiersFrom.eq_def]
    cases braced <;> simp_all

theorem specifiersFrom_name (h : namesModulePart t.kind = true)
    (ha : nextKind ts ≠ .keyword .renamed) :
    specifiersFrom braced done (t :: ts) = specifiersFrom braced (t.text :: done) ts := by
  rw [namesModulePart] at h
  rw [specifiersFrom.eq_def]
  cases ts with
  | nil => simp [h, specifiersFrom]
  | cons as ts =>
    have ha : as.kind ≠ .keyword .renamed := ha
    simp [h, ha]

theorem specifiersFrom_renamed (h : namesModulePart t.kind = true) (ha : as.kind = .keyword .renamed)
    (ho : o.kind = .identifier) :
    specifiersFrom braced done (t :: as :: o :: ts) =
      specifiersFrom braced ((t.text ++ " as " ++ o.text) :: done) ts := by
  rw [namesModulePart] at h
  rw [specifiersFrom.eq_def]
  simp [h, ha, ho]

theorem specifiersFrom_unnamed (h : namesModulePart t.kind = true) (ha : as.kind = .keyword .renamed)
    (ho : nextKind ts ≠ .identifier) :
    specifiersFrom braced done (t :: as :: ts) = specifiersFrom braced (t.text :: done) ts := by
  rw [namesModulePart] at h
  rw [specifiersFrom.eq_def]
  cases ts with
  | nil => simp [h, ha, specifiersFrom]
  | cons o ts =>
    have ho : o.kind ≠ .identifier := ho
    simp [h, ha, ho]

theorem takes_specifiersFrom (braced : Bool) (done : List String) (ts : List Token) :
    TakesFrom k (specifiersFrom braced done) ts := by
  by_cases hc : nextKind ts = .symbol .comma
  · obtain ⟨t, ts, rfl, hc⟩ := exists_cons_of_nextKind hc (by simp)
    exact .after [t] (fun _ => (Passed.of_kind hc (by simp) rfl).append)
      (takes_specifiersFrom braced done ts) fun s _ => specifiersFrom_comma hc
  by_cases hn : namesModulePart (nextKind ts) = true
  · cases ts with
    | nil => cases hn
    | cons t ts =>
      have hn : namesModulePart t.kind = true := hn
      have ht : Passed k [t] := by
        simp only [namesModulePart, Bool.or_eq_true, decide_eq_true_eq] at hn
        rcases hn with hn | hn <;> exact .of_kind hn (by simp) rfl
      by_cases ha : nextKind ts = .keyword .renamed
      · obtain ⟨as, ts, rfl, ha⟩ := exists_cons_of_nextKind ha (by simp)
        have hta : Passed k [t, as] := ht.append (.of_kind ha (by simp) rfl)
        by_cases ho : nextKind ts = .identifier
        · obtain ⟨o, ts, rfl, ho⟩ := exists_cons_of_nextKind ho (by simp)
          have htao : Passed k [t, as, o] := hta.append (.of_kind ho (by simp) rfl)
          exact .after [t, as, o] (fun _ => htao.append) (takes_specifiersFrom braced _ ts)
            fun s _ => specifiersFrom_renamed hn ha ho
        · exact .after [t, as] (fun _ => hta.append) (takes_specifiersFrom braced _ ts)
            fun s hs => specifiersFrom_unnamed hn ha (nextKind_congr hs ▸ ho)
      · exact .after [t] (fun _ => ht.append) (takes_specifiersFrom braced _ ts)
          fun s hs => specifiersFrom_name hn (nextKind_congr hs ▸ ha)
  by_cases hb : braced = true ∧ nextKind ts = .symbol .rightBrace
  · obtain ⟨rfl, hb⟩ := hb
    obtain ⟨t, ts, rfl, hb⟩ := exists_cons_of_nextKind hb (by simp)
    exact .after [t] (fun _ => (Passed.of_kind hb (by simp) rfl).append) (Takes.pure _ ts)
      fun s _ => specifiersFrom_close hb
  · refine .done done.reverse fun s hs => ?_
    have hk := nextKind_congr hs
    exact specifiersFrom_end (by simpa [hk] using hn) (hk ▸ hc) fun h => hk ▸ fun h' => hb ⟨h, h'⟩
termination_by ts.length

theorem takes_specifiers : Takes k specifiers := by
  intro ts
  by_cases hb : nextKind ts = .symbol .leftBrace
  · obtain ⟨t, ts, rfl, hb⟩ := exists_cons_of_nextKind hb (by simp)
    exact .after [t] (fun _ => (Passed.of_kind hb (by simp) rfl).append)
      (takes_specifiersFrom true [] ts) fun s _ => if_pos hb
  · refine .after [] (fun _ h => h) (takes_specifiersFrom false [] ts) fun s hs => ?_
    cases s with
    | nil => rfl
    | cons u s =>
      have hu : u.kind ≠ .symbol .leftBrace := fun h => hb (nextKind_congr hs ▸ h)
      exact if_neg hu

end Specifiers

theorem takes_semicolon {α : Type} (x : α) : Takes k fun ts => (x, skip (.symbol .semicolon) ts) :=
  (takes_skip (by simp) rfl).map fun _ => x

section Module
variable {location : Location}

/-- Takes the path of a module after its specifiers. Without them it may stand alone. -/
def path? (specifiers : List String) (ts : List Token) : Option String × List Token :=
  if specifiers = [] ∧ nextKind ts = .string then string? ts else source? ts

theorem takes_path? (specifiers : List String) : Takes k (path? specifiers) := by
  intro ts
  by_cases h : specifiers = [] ∧ nextKind ts = .string
  · exact .after [] (fun _ h => h) (takes_string? ts) fun s hs => if_pos (nextKind_congr hs ▸ h)
  · exact .after [] (fun _ h => h) (takes_source? ts) fun s hs => if_neg (nextKind_congr hs ▸ h)

theorem imports_eq (ts : List Token) :
    imports location ts =
      (.imports (specifiers ts).1 (path? (specifiers ts).1 (specifiers ts).2).1 location,
        skip (.symbol .semicolon) (path? (specifiers ts).1 (specifiers ts).2).2) := by
  rw [imports]
  generalize specifiers ts = r
  obtain ⟨specs, rest⟩ := r
  cases specs with
  | cons spec specs => rfl
  | nil =>
    by_cases h : nextKind rest = .string
    · obtain ⟨v, rest, rfl, hv⟩ := exists_cons_of_nextKind h (by simp)
      simp [path?, string?, hv]
    · simp [path?, h, string?_none h]

theorem takes_imports : Takes k (imports location) := by
  rw [funext imports_eq]
  exact takes_specifiers.bind fun specifiers => (takes_path? specifiers).bind fun path =>
    takes_semicolon (Node.imports specifiers path location)

/-- Takes the word `default`, if it comes next. -/
def default? (ts : List Token) : Bool × List Token :=
  (startsDefault ts, if startsDefault ts then ts.tail else ts)

theorem takes_default? : Takes k default? := by
  refine Takes.choice (fun t => t.kind = .identifier && t.text = "default") false ?_
    (fun _ => Takes.pure true) ?_ ?_
  · intro t ht
    simp only [Bool.and_eq_true, decide_eq_true_eq] at ht
    simp [ht.1, Kind.opensConstruct]
  · intro t s ht
    simp [default?, startsDefault, ht]
  · intro s hs
    have hno : startsDefault s = false := by
      cases s with
      | nil => rfl
      | cons u s =>
        by_cases he : u.kind = .eof
        · simp [startsDefault, he]
        · exact hs u (peek_cons he)
    simp [default?, hno]

theorem takes_exports : Takes k (exports location) :=
  takes_default?.bind fun isDefault => takes_specifiers.bind fun specifiers =>
    takes_source?.bind fun source =>
      takes_semicolon (Node.exports specifiers source isDefault location)

end Module

/-- Takes the rest of a type after its name. -/
def typeEnd (location : Location) (name : String) (ts : List Token) : Opening × List Token :=
  if nextKind ts = .symbol .assign then
    (.whole (.construct (.type (some (definition ts.tail).1)) name .empty [] location),
      skip (.symbol .semicolon) (definition ts.tail).2)
  else (.construct (.type none) name .empty, ts)

theorem type_eq (location : Location) (ts : List Token) :
    type location ts = typeEnd location (name ts).1 (name ts).2 := by
  rw [type]
  generalize name ts = r
  obtain ⟨name, rest⟩ := r
  cases rest with
  | nil => rfl
  | cons t rest =>
    by_cases h : t.kind = .symbol .assign <;> simp [typeEnd, h]

theorem takes_typeEnd (location : Location) (name : String) :
    Takes .type (typeEnd location name) := by
  intro ts
  by_cases h : nextKind ts = .symbol .assign
  · obtain ⟨t, ts, rfl, ht⟩ := exists_cons_of_nextKind h (by simp)
    have hdef := takes_definition.bind fun text =>
      takes_semicolon (Opening.whole (.construct (.type (some text)) name .empty [] location))
    exact .after [t] (fun _ => (Passed.of_kind ht (by simp) rfl).append) (hdef ts)
      fun s _ => if_pos ht
  · exact .done _ fun s hs => if_neg (nextKind_congr hs ▸ h)

theorem takes_type (location : Location) : Takes .type (type location) := by
  rw [funext (type_eq location)]
  exact takes_name.bind (takes_typeEnd location)

/-- The heading of a keyword takes tokens that it may take, and looks at no others but the next. -/
theorem takes_opening (location : Location) (ho : k.opensConstruct = true) :
    ∃ f, Takes k f ∧ ∀ ts, opening k location ts = some (f ts) := by
  cases k with
  | block b => exact ⟨_, takes_name.bind (takes_opened (.plain b)), fun ts => rfl⟩
  | component =>
    exact ⟨_, takes_name.bind fun name => (takes_names rfl).bind fun params =>
      takes_opened (.component params) name, fun ts => rfl⟩
  | event =>
    exact ⟨_, takes_name.bind fun name => takes_target?.bind fun target =>
      takes_opened (.event target) name, fun ts => rfl⟩
  | route =>
    exact ⟨_, takes_string?.bind fun path => (takes_skip (by simp) rfl).bind fun _ =>
      takes_identifier?.bind fun component => takes_opened (.route path component) "", fun ts => rfl⟩
  | type => exact ⟨_, takes_type location, fun ts => rfl⟩
  | hook =>
    exact ⟨_, takes_name.bind fun name => (takes_names rfl).bind fun params =>
      takes_opened (.hook params) name, fun ts => rfl⟩
  | imports => exact ⟨_, takes_imports.map Opening.whole, fun ts => rfl⟩
  | exports => exact ⟨_, takes_exports.map Opening.whole, fun ts => rfl⟩
  | source | renamed | reserved => cases ho

end Folio.Heading
