import Folio.Proofs.Lookahead

/-! Tokens that a heading leaves unread. Each part of a heading looks at the token behind what it
takes, but what it makes of its own tokens is the same if that token is missing: a part that stops in
front of a token stops at the end of all tokens as well. -/

namespace Folio.Heading
open Token (Kind)

variable {ts rest left : List Token} {t : Token} {α β : Type}

/-- Tokens behind what a reader leaves can be cut off, and nothing else changes. -/
structure Cuttable (f : List Token → α × List Token) : Prop where
  suffix : ∀ ts, (f ts).2 <:+ ts
  cut : ∀ {ts rest left x}, f (ts ++ rest) = (x, left ++ rest) → f ts = (x, left)

theorem nextKind_cut {kind : Kind} (hm : left ++ rest = t :: ts) (ht : t.kind ≠ kind)
    (he : kind ≠ .eof) : nextKind left ≠ kind := by
  cases left with
  | nil => exact he.symm
  | cons u left =>
    cases hm
    exact ht

variable {f e : List Token → α × List Token}

theorem Cuttable.of_cons (hs : ∀ ts, (f ts).2 <:+ ts)
    (hf : ∀ {ts r rest left x}, f (ts ++ r :: rest) = (x, left ++ r :: rest) → f ts = (x, left)) :
    Cuttable f := by
  refine ⟨hs, fun {ts rest left x} h => ?_⟩
  cases rest with
  | nil => simpa using h
  | cons r rest => exact hf h

/-- If `rest` is left of the tokens behind `before`, it can be cut off from them. -/
theorem exists_before_rest (before : List Token) {after : List Token} {x : α}
    (hl : ts ++ rest = before ++ after) (hs : (f after).2 <:+ after)
    (h : f after = (x, left ++ rest)) : ∃ more, ts = before ++ more ∧ more ++ rest = after := by
  rw [h] at hs
  obtain ⟨more, hmore⟩ := (List.suffix_append left rest).trans hs
  rw [← hmore, ← List.append_assoc] at hl
  exact ⟨more, List.append_cancel_right hl, hmore⟩

theorem Cuttable.pure (x : α) : Cuttable fun ts => (x, ts) := by
  refine ⟨fun ts => List.suffix_refl ts, fun {ts rest left y} h => ?_⟩
  rw [Prod.mk.injEq] at h
  rw [h.1, List.append_cancel_right h.2]

theorem Cuttable.map (hf : Cuttable f) (c : α → β) : Cuttable fun ts => (c (f ts).1, (f ts).2) := by
  refine ⟨hf.suffix, fun {ts rest left y} h => ?_⟩
  rw [Prod.mk.injEq] at h
  rw [hf.cut (Prod.ext rfl h.2), h.1]

/-- One reader after the other: what the second leaves, the first has left. -/
theorem Cuttable.bind {g : α → List Token → β × List Token} (hf : Cuttable f)
    (hg : ∀ x, Cuttable (g x)) : Cuttable fun ts => g (f ts).1 (f ts).2 := by
  refine ⟨fun ts => ((hg _).suffix _).trans (hf.suffix ts), fun {ts rest left y} h => ?_⟩
  obtain ⟨taken, htaken⟩ := hf.suffix (ts ++ rest)
  obtain ⟨mid, -, hmid⟩ := exists_before_rest taken htaken.symm ((hg _).suffix _) h
  rw [← hmid] at h
  rw [hf.cut (Prod.ext rfl hmid.symm)]
  exact (hg _).cut h

/-- A reader that looks whether the next token is of some sort. If so it takes the token and goes
on, and if not it does something else, which it also does at the end. -/
theorem Cuttable.choice (p : Token → Bool) (g : Token → List Token → α × List Token)
    (hg : ∀ t, Cuttable (g t)) (he : Cuttable e) (hnil : f [] = e [])
    (hcons : ∀ t ts, f (t :: ts) = if p t then g t ts else e (t :: ts)) : Cuttable f := by
  refine ⟨fun ts => ?_, fun {ts rest left x} h => ?_⟩
  · cases ts with
    | nil =>
      rw [hnil]
      exact he.suffix []
    | cons t ts =>
      rw [hcons]
      split
      · exact ((hg t).suffix ts).trans (List.suffix_cons t ts)
      · exact he.suffix (t :: ts)
  · cases ts with
    | nil =>
      rw [hnil]
      refine he.cut (?_ : e ([] ++ rest) = (x, left ++ rest))
      cases rest with
      | nil => rwa [List.nil_append, hnil] at h
      | cons r rest =>
        rw [List.nil_append, hcons] at h
        split at h
        · -- The next token would be taken and left.
          have hlen := ((hg r).suffix rest).length_le
          rw [h] at hlen
          simp at hlen
          omega
        · exact h
    | cons t ts =>
      rw [List.cons_append, hcons] at h
      rw [hcons]
      split at h
      · next hp =>
        rw [if_pos hp]
        exact (hg t).cut h
      · next hp =>
        rw [if_neg hp]
        exact he.cut h

theorem cuttable_skip (kind : Kind) : Cuttable fun ts => ((), skip kind ts) :=
  .choice (·.kind = kind) (fun _ ts => ((), ts)) (fun _ => .pure ()) (.pure ()) rfl fun t ts => by
    by_cases h : t.kind = kind <;> simp [skip, h]

theorem cuttable_identifier? : Cuttable identifier? :=
  .choice (·.kind = .identifier) (fun t ts => (some t.text, ts)) (fun _ => .pure _) (.pure none) rfl
    fun t ts => by simp [identifier?]

theorem cuttable_string? : Cuttable string? :=
  .choice (·.kind = .string) (fun t ts => (some t.value, ts)) (fun _ => .pure _) (.pure none) rfl
    fun t ts => by simp [string?]

theorem cuttable_name : Cuttable name := cuttable_identifier?.map (·.getD "")

theorem cuttable_target? : Cuttable target? :=
  .choice (fun t => t.kind = .identifier && t.text = "on") (fun _ => identifier?)
    (fun _ => cuttable_identifier?) (.pure none) rfl fun _ _ => rfl

theorem cuttable_source? : Cuttable source? :=
  .choice (·.kind = .keyword .source) (fun _ => string?) (fun _ => cuttable_string?) (.pure none)
    rfl fun t ts => by simp [source?]

theorem Takes.suffix {k : Keyword} (hf : Takes k f) (ts : List Token) : (f ts).2 <:+ ts := by
  obtain ⟨taken, -, hts, -⟩ := hf ts
  exact ⟨taken, hts.symm⟩

section Loops
variable {l : List Token} {x y : α}

/-- Where nothing is taken in front of some tokens, nothing is taken without them. -/
theorem cut_here (p : Kind → Prop) (hl : ts ++ rest = t :: l) (h : (x, t :: l) = (y, left ++ rest))
    (ht : p t.kind) (he : p .eof) (hf : ∀ s, p (nextKind s) → f s = (x, s)) : f ts = (y, left) := by
  rw [Prod.mk.injEq, ← hl] at h
  rw [← h.1, ← List.append_cancel_right h.2]
  apply hf
  cases ts with
  | nil => exact he
  | cons u ts =>
    cases hl
    exact ht

/-- A reader that goes on like `g` after some tokens. -/
theorem cut_after {g : List Token → α × List Token} (before : List Token)
    (hl : ts ++ rest = before ++ l) (h : g l = (y, left ++ rest)) (hs : (g l).2 <:+ l)
    (ih : ∀ {ts}, ts ++ rest = l → g l = (y, left ++ rest) → g ts = (y, left))
    (hf : ∀ more, more ++ rest = l → f (before ++ more) = g more) : f ts = (y, left) := by
  obtain ⟨more, rfl, hmore⟩ := exists_before_rest before hl hs h
  rw [hf more hmore, ih hmore h]

theorem cuttable_attributesFrom (done : Attributes) : Cuttable (attributesFrom done) := by
  have hs (done : Attributes) := Takes.suffix (k := .type) (takes_attributesFrom done)
  refine .of_cons (hs done) fun {ts r rest left x} h => ?_
  generalize hl : ts ++ r :: rest = l at h
  fun_induction attributesFrom done l generalizing ts with
  | case1 | case3 | case4 => simp at h
  | case2 done t l he =>
    exact cut_here (fun k => endsAttributes k = true) hl h he rfl fun _ => attributesFrom_end
  | case5 done t _ hi a ha v l hv ih =>
    exact cut_after [t, a, v] hl h (hs _ l) ih fun _ _ => attributesFrom_pair hi ha hv
  | case6 done t _ hi a ha v l hv ih =>
    exact cut_after [t, a] hl h (hs _ _) ih fun _ hm =>
      attributesFrom_assign hi ha (nextKind_cut hm hv (by simp))
  | case7 done t _ hi a l ha ih =>
    exact cut_after [t] hl h (hs _ _) ih fun _ hm =>
      attributesFrom_key hi (nextKind_cut hm ha (by simp))
  | case8 done t l he hi ih =>
    exact cut_after [t] hl h (hs _ l) ih fun _ _ => attributesFrom_other (by simpa using he) hi

theorem cuttable_opened (header : Header) (name : String) : Cuttable (opened header name) :=
  (cuttable_attributesFrom .empty).map (Opening.construct header name)

theorem cuttable_namesFrom (close : Symbol) (done : List String) :
    Cuttable (namesFrom close done) := by
  have hs (done : List String) := Takes.suffix (takes_namesFrom close done)
  refine .of_cons (hs done) fun {ts r rest left x} h => ?_
  generalize hl : ts ++ r :: rest = l at h
  fun_induction namesFrom close done l generalizing ts with
  | case1 => simp at h
  | case2 done t l he =>
    simp only [Bool.or_eq_true, decide_eq_true_eq, or_assoc] at he
    exact cut_here (fun k => k = .symbol close ∨ k = .symbol .leftBrace ∨ k = .eof) hl h he
      (.inr (.inr rfl)) fun _ => namesFrom_end
  | case3 done t l he hi ih =>
    refine cut_after [t] hl h (hs _ l) ih fun more _ => ?_
    rw [List.singleton_append, namesFrom, if_neg he, if_pos hi]
  | case4 done t l he hi ih =>
    refine cut_after [t] hl h (hs _ l) ih fun more _ => ?_
    rw [List.singleton_append, namesFrom, if_neg he, if_neg hi]

theorem cuttable_names (opening close : Symbol) : Cuttable (names opening close) :=
  .choice (·.kind = .symbol opening)
    (fun _ ts => ((namesFrom close [] ts).1, skip (.symbol close) (namesFrom close [] ts).2))
    (fun _ => (cuttable_namesFrom close []).bind fun names =>
      (cuttable_skip (.symbol close)).map fun _ => names)
    (.pure []) rfl fun t ts => by simp [names]

theorem cuttable_definitionFrom (depth : Nat) (done : List String) :
    Cuttable (definitionFrom depth done) := by
  have hs (depth : Nat) (done : List String) := Takes.suffix (takes_definitionFrom depth done)
  refine .of_cons (hs depth done) fun {ts r rest left x} h => ?_
  generalize hl : ts ++ r :: rest = l at h
  induction l generalizing ts depth done with
  | nil => simp at hl
  | cons t l ih =>
    by_cases he : EndsDefinition depth t.kind
    · rw [definitionFrom_ends he] at h
      exact cut_here (EndsDefinition depth) hl h he (.inl rfl) fun _ => definitionFrom_ends
    · rw [definitionFrom_goes he] at h
      exact cut_after [t] hl h (hs _ _ l) (fun hl h => ih _ _ hl h) fun _ _ => definitionFrom_goes he

theorem cuttable_specifiersFrom (braced : Bool) (done : List String) :
    Cuttable (specifiersFrom braced done) := by
  have hs (done : List String) := Takes.suffix (k := .type) (takes_specifiersFrom braced done)
  refine .of_cons (hs done) fun {ts r rest left x} h => ?_
  generalize hl : ts ++ r :: rest = l at h
  fun_induction specifiersFrom braced done l generalizing ts with
  | case1 | case2 | case3 => simp at h
  | case4 done t hn as ha o l ho ih =>
    exact cut_after [t, as, o] hl h (hs _ l) ih fun _ _ => specifiersFrom_renamed hn ha ho
  | case5 done t hn as ha o l ho ih =>
    exact cut_after [t, as] hl h (hs _ _) ih fun _ hm =>
      specifiersFrom_unnamed hn ha (nextKind_cut hm ho (by simp))
  | case6 done t hn as l ha ih =>
    exact cut_after [t] hl h (hs _ _) ih fun _ hm =>
      specifiersFrom_name hn (nextKind_cut hm ha (by simp))
  | case7 done t l _ hc ih =>
    exact cut_after [t] hl h (hs _ l) ih fun _ _ => specifiersFrom_comma hc
  | case8 done t l _ _ hb =>
    simp only [Bool.and_eq_true, decide_eq_true_eq] at hb
    obtain ⟨hb, rfl⟩ := hb
    exact cut_after [t] hl h (List.suffix_refl l) (fun hm h => (Cuttable.pure _).cut (hm ▸ h))
      fun _ _ => specifiersFrom_close hb
  | case9 done t l hn hc hb =>
    have hb (hbraced : braced = true) : t.kind ≠ .symbol .rightBrace := by simpa [hbraced] using hb
    exact cut_here (fun k => namesModulePart k = false ∧ k ≠ .symbol .comma ∧
      (braced = true → k ≠ .symbol .rightBrace)) hl h ⟨eq_false_of_ne_true hn, hc, hb⟩
      ⟨rfl, by simp⟩ fun _ hs => specifiersFrom_end hs.1 hs.2.1 hs.2.2

end Loops

theorem cuttable_definition : Cuttable definition :=
  (cuttable_definitionFrom 0 []).map (" ".intercalate ·)

theorem cuttable_specifiers : Cuttable specifiers :=
  .choice (·.kind = .symbol .leftBrace) (fun _ => specifiersFrom true [])
    (fun _ => cuttable_specifiersFrom true []) (cuttable_specifiersFrom false []) rfl
    fun t ts => by simp [specifiers]

theorem cuttable_semicolon (x : α) : Cuttable fun ts => (x, skip (.symbol .semicolon) ts) :=
  (cuttable_skip (.symbol .semicolon)).map fun _ => x

theorem cuttable_path? (specifiers : List String) : Cuttable (path? specifiers) := by
  refine .choice (fun t => specifiers = [] ∧ t.kind = .string) (fun t ts => (some t.value, ts))
    (fun _ => .pure _) cuttable_source? ?_ fun t ts => ?_
  · exact if_neg fun h => nomatch h.2
  · by_cases h : specifiers = [] ∧ t.kind = .string <;> simp [path?, string?, h]

theorem cuttable_imports (location : Location) : Cuttable (imports location) := by
  rw [funext imports_eq]
  exact cuttable_specifiers.bind fun specifiers => (cuttable_path? specifiers).bind fun path =>
    cuttable_semicolon (Node.imports specifiers path location)

theorem cuttable_default? : Cuttable default? :=
  .choice (fun t => t.kind = .identifier && t.text = "default") (fun _ ts => (true, ts))
    (fun _ => .pure true) (.pure false) rfl fun t ts => by
      by_cases h : (t.kind = .identifier && t.text = "default") = true <;>
        simp [default?, startsDefault, h]

theorem cuttable_exports (location : Location) : Cuttable (exports location) :=
  cuttable_default?.bind fun isDefault => cuttable_specifiers.bind fun specifiers =>
    cuttable_source?.bind fun source =>
      cuttable_semicolon (Node.exports specifiers source isDefault location)

theorem cuttable_typeEnd (location : Location) (name : String) :
    Cuttable (typeEnd location name) :=
  .choice (·.kind = .symbol .assign)
    (fun _ ts => (.whole (.construct (.type (some (definition ts).1)) name .empty [] location),
      skip (.symbol .semicolon) (definition ts).2))
    (fun _ => cuttable_definition.bind fun text =>
      cuttable_semicolon (Opening.whole (.construct (.type (some text)) name .empty [] location)))
    (.pure (.construct (.type none) name .empty)) rfl fun t ts => by
      by_cases h : t.kind = .symbol .assign <;> simp [typeEnd, h]

theorem cuttable_type (location : Location) : Cuttable (type location) := by
  rw [funext (type_eq location)]
  exact cuttable_name.bind (cuttable_typeEnd location)

/-- What the heading of a keyword leaves can be cut off behind it. -/
theorem cuttable_opening {k : Keyword} (location : Location) (ho : k.opensConstruct = true) :
    ∃ f, Cuttable f ∧ ∀ ts, opening k location ts = some (f ts) := by
  cases k with
  | block b => exact ⟨_, cuttable_name.bind (cuttable_opened (.plain b)), fun ts => rfl⟩
  | component =>
    exact ⟨_, cuttable_name.bind fun name => (cuttable_names _ _).bind fun params =>
      cuttable_opened (.component params) name, fun ts => rfl⟩
  | event =>
    exact ⟨_, cuttable_name.bind fun name => cuttable_target?.bind fun target =>
      cuttable_opened (.event target) name, fun ts => rfl⟩
  | route =>
    exact ⟨_, cuttable_string?.bind fun path => (cuttable_skip _).bind fun _ =>
      cuttable_identifier?.bind fun component => cuttable_opened (.route path component) "",
      fun ts => rfl⟩
  | type => exact ⟨_, cuttable_type location, fun ts => rfl⟩
  | hook =>
    exact ⟨_, cuttable_name.bind fun name => (cuttable_names _ _).bind fun params =>
      cuttable_opened (.hook params) name, fun ts => rfl⟩
  | imports => exact ⟨_, (cuttable_imports location).map Opening.whole, fun ts => rfl⟩
  | exports => exact ⟨_, (cuttable_exports location).map Opening.whole, fun ts => rfl⟩
  | source | renamed | reserved => cases ho

end Folio.Heading
