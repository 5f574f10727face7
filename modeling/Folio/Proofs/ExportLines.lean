import Folio.Proofs.ImportLines

/-! Export statements that are emitted. The word that marks a default export can be a name as well, and
a single specifier has no braces: if it starts with that word, it is taken for the mark. All other
exports can be read again. -/

namespace Folio

namespace Grammar
open Token (Content)

variable {s : Specifier} {specs : List Specifier} {source : Option String} {isDefault : Bool}

/-- An export as it is emitted, behind its keyword. -/
def exportMarks (isDefault : Bool) (specs : List Specifier) (source : Option String) : List Mark :=
  (if isDefault then [.name "default"] else []) ++
    (shownMarks specs ++ (sourceMarks source ++ [.symbol .semicolon]))

theorem spells_exports (isDefault : Bool) (hs : ∀ s ∈ specs, s.Named)
    (hp : ∀ path ∈ source, Content '\'' path.toList) :
    Spells (.opener .exports .start :: exportMarks isDefault specs source)
      (Snippet.exports (specs.map Specifier.text) source isDefault).toList [] := by
  have hexport {rest : List Char} :
      Spells [.opener .exports .start] "export".toList (' ' :: rest) :=
    spells_opener .exports (endsWord_cons ' ' (by decide))
  have hshown := (spells_shown hs hp).after_blank ' ' (by decide)
  cases isDefault with
  | false =>
    have htext : (Snippet.exports (specs.map Specifier.text) source false).toList =
        "export".toList ++ ' ' :: ((Snippet.specifierList (specs.map Specifier.text)).toList ++
          ((Snippet.sourceClause source).toList ++ (Symbol.semicolon.spelling ++ ['\n']))) := by
      simp only [Snippet.exports, String.toList_append, List.append_assoc]
      rfl
    rw [htext]
    exact hexport.append hshown
  | true =>
    have htext : (Snippet.exports (specs.map Specifier.text) source true).toList =
        "export".toList ++ ' ' :: ("default".toList ++
          ' ' :: ((Snippet.specifierList (specs.map Specifier.text)).toList ++
            ((Snippet.sourceClause source).toList ++ (Symbol.semicolon.spelling ++ ['\n'])))) := by
      simp only [Snippet.exports, String.toList_append, List.append_assoc]
      rfl
    have hdefault {rest : List Char} : Spells [.name "default"] "default".toList (' ' :: rest) :=
      spells_name (by decide +kernel) (endsWord_cons ' ' (by decide))
    rw [htext]
    exact hexport.append ((hdefault.append hshown).after_blank ' ' (by decide))

/-- The first word of a specifier is what it names. -/
theorem Specifier.Named.first_word (hs : s.Named) :
    s.text.toList.takeWhile (· != ' ') = (s.name.getD "*").toList := by
  have hname : (s.name.getD "*").toList.all (· != ' ') = true := by
    cases hn : s.name with
    | none => rfl
    | some name =>
      rw [List.all_eq_true]
      intro c hc
      rw [bne_iff_ne]
      rintro rfl
      exact absurd ((hs.1 name hn).parts ' ' hc) (by decide)
  rw [Specifier.text, String.toList_append,
    List.takeWhile_append_of_pos (List.all_eq_true.mp hname)]
  cases s.other with
  | none => simp
  | some other => simp

end Grammar

namespace Heading
open Grammar

variable {specs : List Specifier} {names : List String} {source : Option String} {isDefault : Bool}
  {ts us vs rest : List Token} {t : Token} {location : Location}

theorem exports_reads (hd : default? ts = (isDefault, us)) (hs : specifiers us = (names, vs))
    (h : Writes (sourceMarks source ++ [.symbol .semicolon]) vs rest) :
    exports location ts = (.exports names source isDefault location, rest) := by
  obtain ⟨-, semi, hsource, hsemi⟩ := source_end_writes h
  rw [exports_eq, hd, hs, hsource, skip_next hsemi]

theorem default?_word (hk : t.kind = .identifier) (ht : t.text = "default") :
    default? (t :: ts) = (true, ts) := by
  simp [default?, startsDefault, hk, ht]

theorem default?_none (h : ∀ t ∈ ts.head?, t.kind = .identifier → t.text ≠ "default") :
    default? ts = (false, ts) := by
  have hno : startsDefault ts = false := by
    cases ts with
    | nil => rfl
    | cons t ts => simpa [startsDefault] using h t rfl
  rw [default?, hno]
  rfl

/-- Behind the keyword stands the brace of the specifiers, or the only one of them. -/
theorem name_of_shown
    (h : Writes (shownMarks specs ++ (sourceMarks source ++ [.symbol .semicolon])) (t :: ts) rest)
    (hk : t.kind = .identifier) : ∃ s, specs = [s] ∧ s.name = some t.text := by
  rcases specs with _ | ⟨s, _ | ⟨next, specs⟩⟩
  · obtain ⟨_, _, ⟨⟩, ht, -⟩ := writes_cons.mp h
    exact absurd (hk.symm.trans ht) (by simp)
  · obtain ⟨_, _, ⟨⟩, ht, -⟩ := writes_cons.mp h
    refine ⟨s, rfl, ?_⟩
    cases hn : s.name with
    | none =>
      rw [hn] at ht
      exact absurd (hk.symm.trans ht.1) (by simp)
    | some name =>
      rw [hn] at ht
      rw [ht.2]
  · obtain ⟨_, _, ⟨⟩, ht, -⟩ := writes_cons.mp h
    exact absurd (hk.symm.trans ht) (by simp)

theorem exports_opening (h : Writes (exportMarks isDefault specs source) ts rest)
    (hn : isDefault = false → ∀ s, specs = [s] → s.name ≠ some "default") :
    opening .exports location ts =
      some (.whole (.exports (specs.map Specifier.text) source isDefault location), rest) := by
  obtain ⟨us, hdefault, h⟩ := writes_append.mp h
  have hmark : default? ts = (isDefault, us) := by
    cases isDefault with
    | true =>
      obtain ⟨t, _, rfl, ht, hmore⟩ := writes_cons.mp hdefault
      obtain rfl := writes_nil.mp hmore
      exact default?_word ht.1 ht.2
    | false =>
      obtain rfl := writes_nil.mp hdefault
      refine default?_none fun t ht hk htext => ?_
      obtain ⟨more, rfl⟩ := List.head?_eq_some_iff.mp ht
      obtain ⟨s, hs, hname⟩ := name_of_shown h hk
      exact hn rfl s hs (htext ▸ hname)
  obtain ⟨vs, hspecs, hend⟩ := writes_append.mp h
  rw [opening, exports_reads hmark (specifiers_shown hspecs (nextKind_source_end hend)) hend]

theorem specifiers_none (hb : nextKind ts ≠ .symbol .leftBrace)
    (hn : namesModulePart (nextKind ts) = false) (hc : nextKind ts ≠ .symbol .comma) :
    specifiers ts = ([], ts) := by
  have hend : specifiersFrom false [] ts = ([], ts) := specifiersFrom_end hn hc nofun
  cases ts with
  | nil => rfl
  | cons t ts =>
    rw [nextKind_cons] at hb
    rw [specifiers, if_neg hb, hend]

/-- A specifier that starts with `default` is taken for the mark. Behind it only a path is read, and
only if no other name comes before the path. -/
theorem mistaken_opening {s : Specifier} (location : Location) (hs : s.name = some "default")
    (h : Writes (exportMarks false [s] source) ts rest) :
    ∃ after, opening .exports location ts =
        some (.whole (.exports [] (if s.other = none then source else none) true location), after) ∧
      Writes (s.other.elim [] fun other =>
        .word .renamed :: .name other :: (sourceMarks source ++ [.symbol .semicolon])) after rest := by
  obtain ⟨_, hnone, h⟩ := writes_append.mp h
  obtain rfl := writes_nil.mp hnone
  obtain ⟨us, hspec, hend⟩ := writes_append.mp h
  rw [shownMarks, Specifier.marks, hs] at hspec
  obtain ⟨t, more, rfl, ⟨hk, ht⟩, hother⟩ := writes_cons.mp hspec
  have hmark : default? (t :: more) = (true, more) := default?_word hk ht
  cases ho : s.other with
  | none =>
    rw [ho] at hother
    obtain rfl := writes_nil.mp hother
    have hnone : specifiers more = ([], more) := by
      rcases nextKind_source_end hend with hnext | hnext
      all_goals refine specifiers_none ?_ ?_ ?_ <;> simp [hnext, namesModulePart]
    refine ⟨rest, ?_, .nil rest⟩
    rw [opening, exports_reads hmark hnone hend]
    rfl
  | some other =>
    rw [ho] at hother
    refine ⟨more, ?_, writes_append.mpr ⟨us, hother, hend⟩⟩
    have has : nextKind more = .keyword .renamed := by
      obtain ⟨as, _, rfl, has, -⟩ := writes_cons.mp hother
      exact has
    have hnone : specifiers more = ([], more) := by
      refine specifiers_none ?_ ?_ ?_ <;> simp [has, namesModulePart]
    have hsource : source? more = (none, more) :=
      source?_writes (.nil more : Writes (sourceMarks none) more more) fun _ => by simp [has]
    rw [opening, exports_eq, hmark, hnone, hsource, skip_other (by simp [has])]
    rfl

end Heading

namespace Grammar
open Parse

variable {m : Mark} {ms : List Mark} {t : Token} {ts rest : List Token} {limit : Option Nat}

/-- Whether a mark is for tokens that open no statement. -/
def Mark.opensNothing : Mark → Bool
  | word k => !k.opensConstruct
  | symbol _ | name _ | literal _ => true
  | opener .. | piece .. => false

theorem Mark.Fits.opens_nothing (h : m.Fits t) (hm : m.opensNothing = true) :
    t.kind ≠ .eof ∧ t.kind.opensConstruct = false := by
  cases m with
  | word k =>
    have hk : t.kind = .keyword k := h
    simpa [hk, Token.Kind.opensConstruct, opensNothing] using hm
  | symbol s =>
    have hk : t.kind = .symbol s := h
    simp [hk, Token.Kind.opensConstruct]
  | name | literal => simp [h.1, Token.Kind.opensConstruct]
  | opener | piece => cases hm

/-- Outside all bodies, what opens no statement is passed over. -/
theorem Writes.body_eq (h : Writes ms ts rest) (hm : ms.all Mark.opensNothing = true) :
    body limit 0 ts = body limit 0 rest := by
  induction h with
  | nil => rfl
  | cons fits _ ih =>
    rw [List.all_cons, Bool.and_eq_true] at hm
    obtain ⟨he, ho⟩ := fits.opens_nothing hm.1
    rw [body_skip (by simp [endsBody, he]) ho, ih hm.2]

end Grammar

/-- What an export says: what it names, the path of its module, and whether it is the default. -/
def Node.export? : Node → Option (List String × Option String × Bool)
  | exports specifiers source isDefault _ => some (specifiers, source, isDefault)
  | construct .. | imports .. | element .. | text .. | expression .. => none

theorem Node.export?_relocate (f : Location → Location) (n : Node) :
    (n.relocate f).export? = n.export? := by
  cases n <;> rfl

/-- An export without the mark of a default export, whose only specifier starts with the same word. -/
def LooksDefault (specifiers : List String) (isDefault : Bool) : Prop :=
  isDefault = false ∧ ∃ s, specifiers = [s] ∧ s.toList.takeWhile (· != ' ') = "default".toList

theorem looksDefault_iff {specs : List Grammar.Specifier} {isDefault : Bool}
    (hs : ∀ s ∈ specs, s.Named) : LooksDefault (specs.map Grammar.Specifier.text) isDefault ↔
      isDefault = false ∧ ∃ s, specs = [s] ∧ s.name = some "default" := by
  refine and_congr_right fun _ => ?_
  constructor
  · rintro ⟨text, htext, hfirst⟩
    obtain ⟨s, rfl, rfl⟩ := List.map_eq_singleton_iff.mp htext
    refine ⟨s, rfl, ?_⟩
    rw [(hs s (by simp)).first_word, String.toList_inj] at hfirst
    cases hn : s.name with
    | none =>
      rw [hn] at hfirst
      exact absurd hfirst (by decide)
    | some name =>
      rw [hn] at hfirst
      exact congrArg some hfirst
  · rintro ⟨s, rfl, hn⟩
    refine ⟨s.text, rfl, ?_⟩
    rw [(hs s (by simp)).first_word, hn]
    rfl

/-- Only the word alone is the whole specifier. -/
theorem Grammar.Specifier.text_eq_default {s : Specifier} (hn : s.name = some "default") :
    s.text = "default" ↔ s.other = none := by
  rw [text, hn]
  cases s.other with
  | none => simp
  | some other =>
    rw [← String.toList_inj]
    simp

namespace Program
open Parse Token Grammar

variable {specs : List Specifier} {specifiers : List String} {source : Option String}
  {isDefault : Bool}

theorem parse_exports (hs : ∀ s ∈ specs, s.Named)
    (hp : ∀ path ∈ source, Content '\'' path.toList)
    (hn : isDefault = false → ∀ s, specs = [s] → s.name ≠ some "default") :
    (parseSource (Snippet.exports (specs.map Specifier.text) source isDefault)).statements.map
      Node.export? = [some (specs.map Specifier.text, source, isDefault)] := by
  obtain ⟨ts, hwrites, hparse⟩ := exists_tokens (spells_exports isDefault hs hp)
  have hbody := body_of_whole (by decide : 0 < maxDepth) hwrites
    fun _ hm => Heading.exports_opening hm hn
  rw [← Node.map_relocate (Node.export?_relocate fun _ => .start), hparse, hbody, body_end rfl]
  rfl

theorem parse_exports_mistaken {s : Specifier} (hs : s.Named) (hname : s.name = some "default")
    (hp : ∀ path ∈ source, Content '\'' path.toList) :
    (parseSource (Snippet.exports [s.text] source false)).statements.map Node.export? =
      [some ([], if s.other = none then source else none, true)] := by
  have hspells := spells_exports false (List.forall_mem_singleton.mpr hs) hp
  obtain ⟨ts, hwrites, hparse⟩ := exists_tokens hspells
  obtain ⟨t, more, rfl, ⟨hk, -⟩, hmarks⟩ := writes_cons.mp hwrites
  obtain ⟨after, hopen, hafter⟩ := Heading.mistaken_opening t.location hname hmarks
  have hkeyword : opening t more = Heading.opening .exports t.location more := by rw [opening, hk]
  have hbody := body_whole (endsBody_keyword hk) (not_tooDeep (by decide : 0 < maxDepth))
    (hkeyword.trans hopen)
  have hpassed : body maxDepth 0 after = body maxDepth 0 [⟨.eof, "", .start⟩] := by
    refine hafter.body_eq ?_
    cases s.other <;> cases source <;> rfl
  rw [← Node.map_relocate (Node.export?_relocate fun _ => .start)]
  rw [List.map_singleton] at hparse
  rw [hparse, hbody, hpassed, body_end rfl]
  rfl

/-- An export that is emitted is read again as it was, exactly if it does not look like a default
export that it is not. Otherwise its only specifier is lost, with the path behind another name. -/
theorem exports_read_back_unless_default (text : String) {e : Nat × Node}
    (he : e ∈ (parseSource text).nodes) (hx : e.2.export? = some (specifiers, source, isDefault))
    (hp : ∀ path ∈ source, QuotesEscaped '\'' path.toList ∧ endsEscaped path.toList = false) :
    ((parseSource (⟨[e.2]⟩ : Program).emit.script).statements.map Node.export? =
        [some (specifiers, source, isDefault)] ↔ ¬LooksDefault specifiers isDefault) ∧
      (LooksDefault specifiers isDefault →
        (parseSource (⟨[e.2]⟩ : Program).emit.script).statements.map Node.export? =
          [some ([], if specifiers = ["default"] then source else none, true)]) := by
  have hnamed := nodes_named text e he
  obtain ⟨depth, node⟩ := e
  cases node with
  | exports specifiers source isDefault location =>
    cases hx
    obtain ⟨specs, hspecs, rfl⟩ := exists_specifiers hnamed
    have hcontent : ∀ path ∈ source, Content '\'' path.toList :=
      fun path hpath => (content_iff (by decide)).mpr (hp path hpath)
    rw [emit, Output.ofNodes_singleton, Output.ofNode, looksDefault_iff hspecs]
    have hmistaken : (isDefault = false ∧ ∃ s, specs = [s] ∧ s.name = some "default") →
        (parseSource (Snippet.exports (specs.map Specifier.text) source isDefault)).statements.map
          Node.export? =
            [some ([], if specs.map Specifier.text = ["default"] then source else none, true)] := by
      rintro ⟨rfl, s, rfl, hn⟩
      rw [List.map_singleton, parse_exports_mistaken (hspecs s (by simp)) hn hcontent]
      simp [Specifier.text_eq_default hn]
    refine ⟨⟨fun hsame hlooks => ?_, fun hlooks => ?_⟩, hmistaken⟩
    · rw [hmistaken hlooks, hlooks.1] at hsame
      simp at hsame
    · exact parse_exports hspecs hcontent fun hd s hs hn => hlooks ⟨hd, s, hs, hn⟩
  | construct | imports | element | text | expression => cases hx

/-- An export in a page, under the word that would mark it as the default. -/
def exportText : String := "page P \x7b export * as default from \"it\\'s\" \x7d"

theorem exports_read_back_sample : ∃ e ∈ (parseSource exportText).nodes,
    e.2.export? = some (["* as default"], some "it\\'s", false) ∧
      ¬LooksDefault ["* as default"] false ∧
      (parseSource (⟨[e.2]⟩ : Program).emit.script).statements.map Node.export? =
        [some (["* as default"], some "it\\'s", false)] := by
  obtain ⟨e, he, hx⟩ : ∃ e ∈ (parseSource exportText).nodes,
      e.2.export? = some (["* as default"], some "it\\'s", false) := by decide +kernel
  have hpath : Content '\'' "it\\'s".toList := by decide +kernel
  have hlooks : ¬LooksDefault ["* as default"] false := by
    rintro ⟨-, s, ⟨⟩, hs⟩
    exact absurd hs (by decide)
  have hread := exports_read_back_unless_default exportText he hx fun path hp => by
    cases hp
    exact (content_iff (by decide)).mp hpath
  exact ⟨e, he, hx, hlooks, hread.1.mpr hlooks⟩

/-- Without its braces, an export of what is called `default` comes back as a default export of
nothing. -/
theorem export_of_default_mistaken : ∃ e ∈ (parseSource "export \x7b default \x7d").nodes,
    e.2.export? = some (["default"], none, false) ∧
      (parseSource (⟨[e.2]⟩ : Program).emit.script).statements.map Node.export? ≠
        [some (["default"], none, false)] := by
  decide +kernel

end Program

end Folio
