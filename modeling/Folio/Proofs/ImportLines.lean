import Folio.Proofs.Completeness
import Folio.Proofs.Spelling
import Folio.Proofs.Visible

/-! Import statements that are emitted can be read again. In the line of an import each token ends
where the next one starts, whatever names stand in it, so that the tokenizer finds the marks that
write the import. -/

namespace Folio

namespace Grammar
open Token (Content)

variable {s : Specifier} {specs : List Specifier} {source : Option String} {rest : List Char}

/-- A specifier whose names are identifiers. -/
def Specifier.Named (s : Specifier) : Prop :=
  (∀ n ∈ s.name, IsIdentifier n) ∧ ∀ o ∈ s.other, IsIdentifier o

theorem exists_specifier {text : String} (h : IsSpecifier text) :
    ∃ s : Specifier, s.Named ∧ s.text = text := by
  obtain ⟨part, hpart, htext⟩ := h
  obtain ⟨name, hname, rfl⟩ : ∃ name : Option String, (∀ n ∈ name, IsIdentifier n) ∧
      name.getD "*" = part := by
    rcases hpart with rfl | hpart
    · exact ⟨none, nofun, rfl⟩
    · exact ⟨some part, by simpa using hpart, rfl⟩
  rcases htext with rfl | ⟨other, hother, rfl⟩
  · exact ⟨⟨name, none⟩, ⟨hname, nofun⟩, by simp [Specifier.text]⟩
  · exact ⟨⟨name, some other⟩, ⟨hname, by simpa using hother⟩,
      by simp [Specifier.text, String.append_assoc]⟩

theorem exists_specifiers {texts : List String} (h : ∀ t ∈ texts, IsSpecifier t) :
    ∃ specs : List Specifier, (∀ s ∈ specs, s.Named) ∧ specs.map Specifier.text = texts := by
  induction texts with
  | nil => exact ⟨[], by simp, rfl⟩
  | cons text texts ih =>
    obtain ⟨ht, hts⟩ := List.forall_mem_cons.mp h
    obtain ⟨s, hs, rfl⟩ := exists_specifier ht
    obtain ⟨specs, hspecs, rfl⟩ := ih hts
    exact ⟨s :: specs, List.forall_mem_cons.mpr ⟨hs, hspecs⟩, rfl⟩

theorem spells_specifier (hs : s.Named) (hr : EndsWord rest) :
    Spells s.marks s.text.toList rest := by
  obtain ⟨name, other⟩ := s
  have hpart {rest : List Char} (hr : EndsWord rest) :
      Spells [name.elim (.piece (.symbol .multiply) "*") .name] (name.getD "*").toList rest := by
    cases name with
    | none => exact spells_token (lexeme_symbol (s := .multiply) (by decide)) rfl ⟨rfl, rfl⟩
    | some name => exact spells_name (hs.1 name rfl) hr
  cases other with
  | none => simpa [Specifier.text, Specifier.marks] using hpart hr
  | some other =>
    have hother := (spells_name (hs.2 other rfl) hr).after_blank ' ' (by decide)
    have has : Spells [.word .renamed] "as".toList (' ' :: other.toList ++ rest) :=
      spells_word .renamed (endsWord_cons ' ' (by decide))
    have hrenamed := (has.append hother).after_blank ' ' (by decide)
    have htext : (Specifier.text ⟨name, some other⟩).toList =
        (name.getD "*").toList ++ (' ' :: ("as".toList ++ ' ' :: other.toList)) := by
      simp [Specifier.text]
    rw [htext]
    exact (hpart (endsWord_cons ' ' (by decide))).append hrenamed

theorem spells_commas (hs : ∀ s ∈ specs, s.Named) (hr : EndsWord rest) :
    Spells (commas (specs.map Specifier.marks)) (", ".intercalate (specs.map Specifier.text)).toList
      rest := by
  induction specs with
  | nil => exact spells_nothing
  | cons s specs ih =>
    obtain ⟨hfirst, hspecs⟩ := List.forall_mem_cons.mp hs
    cases specs with
    | nil => exact spells_specifier hfirst hr
    | cons next specs =>
      have hmore := (ih hspecs).after_blank ' ' (by decide)
      have hcomma := (spells_symbol (s := .comma) (by decide)).append hmore
      have htext : (", ".intercalate ((s :: next :: specs).map Specifier.text)).toList =
          s.text.toList ++ (Symbol.comma.spelling ++
            ' ' :: (", ".intercalate ((next :: specs).map Specifier.text)).toList) := by
        simp only [List.map_cons, String.intercalate_cons_cons, String.toList_append,
          List.append_assoc]
        rfl
      rw [htext]
      exact (spells_specifier hfirst (endsWord_cons ',' (by decide))).append hcomma

theorem spells_source (hp : ∀ path ∈ source, Content '\'' path.toList) :
    Spells (sourceMarks source) (Snippet.sourceClause source).toList rest := by
  cases source with
  | none => exact spells_nothing
  | some path =>
    have hpath : Spells [.literal path] (' ' :: '\'' :: (path.toList ++ ['\''])) rest :=
      (spells_literal (.inr rfl) (hp path rfl)).after_blank ' ' (by decide)
    have hfrom : Spells [.word .source] "from".toList
        (' ' :: '\'' :: (path.toList ++ ['\'']) ++ rest) :=
      spells_word .source (endsWord_cons ' ' (by decide))
    have htext : (Snippet.sourceClause (some path)).toList =
        ' ' :: ("from".toList ++ ' ' :: '\'' :: (path.toList ++ ['\''])) := by
      simp [Snippet.sourceClause]
    rw [htext]
    exact (hfrom.append hpath).after_blank ' ' (by decide)

theorem endsWord_source : EndsWord ((Snippet.sourceClause source).toList ++ ';' :: rest) := by
  cases source with
  | none => exact endsWord_cons ';' (by decide)
  | some path =>
    rw [Snippet.sourceClause, String.toList_append, String.toList_append]
    exact endsWord_cons ' ' (by decide)

/-- Specifiers as they are emitted: a single one has no braces. -/
def shownMarks : List Specifier → List Mark
  | [s] => s.marks
  | specs => specifierMarks specs

theorem spells_specifierList (hs : ∀ s ∈ specs, s.Named) (hr : EndsWord rest) :
    Spells (shownMarks specs) (Snippet.specifierList (specs.map Specifier.text)).toList rest := by
  have hopen {rest : List Char} : Spells [.symbol .leftBrace] Symbol.leftBrace.spelling rest :=
    spells_symbol (by decide)
  have hclose : Spells [.symbol .rightBrace] Symbol.rightBrace.spelling rest :=
    spells_symbol (by decide)
  match specs with
  | [] => exact hopen.append hclose
  | [s] => exact spells_specifier (hs s (by simp)) hr
  | s :: next :: specs =>
    have hnext : EndsWord (' ' :: Symbol.rightBrace.spelling ++ rest) :=
      endsWord_cons ' ' (by decide)
    have hnames := (spells_commas hs hnext).append (hclose.after_blank ' ' (by decide))
    have htext : (Snippet.specifierList ((s :: next :: specs).map Specifier.text)).toList =
        Symbol.leftBrace.spelling ++ ' ' ::
          ((", ".intercalate ((s :: next :: specs).map Specifier.text)).toList ++
            ' ' :: Symbol.rightBrace.spelling) := by
      simp only [List.map_cons, Snippet.specifierList, String.toList_append, List.append_assoc]
      rfl
    rw [htext]
    exact hopen.append (hnames.after_blank ' ' (by decide))

theorem spells_end : Spells [.symbol .semicolon] (Symbol.semicolon.spelling ++ ['\n']) [] :=
  (spells_symbol (by decide)).append (spells_nothing.after_blank '\n' (by decide))

/-- What stands behind the keyword of a module statement, up to the end of its line. -/
theorem spells_shown (hs : ∀ s ∈ specs, s.Named)
    (hp : ∀ path ∈ source, Content '\'' path.toList) :
    Spells (shownMarks specs ++ (sourceMarks source ++ [.symbol .semicolon]))
      ((Snippet.specifierList (specs.map Specifier.text)).toList ++
        ((Snippet.sourceClause source).toList ++ (Symbol.semicolon.spelling ++ ['\n']))) [] := by
  have hnext : EndsWord
      ((Snippet.sourceClause source).toList ++ (Symbol.semicolon.spelling ++ ['\n']) ++ []) := by
    rw [List.append_nil]
    exact endsWord_source
  exact (spells_specifierList hs hnext).append ((spells_source hp).append spells_end)

/-- An import as it is emitted, behind its keyword. -/
def importMarks : List Specifier → Option String → List Mark
  | [], some path => [.literal path, .symbol .semicolon]
  | specs, source => shownMarks specs ++ (sourceMarks source ++ [.symbol .semicolon])

theorem spells_imports (hs : ∀ s ∈ specs, s.Named)
    (hp : ∀ path ∈ source, Content '\'' path.toList) :
    Spells (.opener .imports .start :: importMarks specs source)
      (Snippet.imports (specs.map Specifier.text) source).toList [] := by
  have himport {rest : List Char} :
      Spells [.opener .imports .start] "import".toList (' ' :: rest) :=
    spells_opener .imports (endsWord_cons ' ' (by decide))
  have hshown : Spells (.opener .imports .start ::
      (shownMarks specs ++ (sourceMarks source ++ [.symbol .semicolon])))
      ("import " ++ Snippet.specifierList (specs.map Specifier.text) ++
        Snippet.sourceClause source ++ ";\n").toList [] := by
    have htext : ("import " ++ Snippet.specifierList (specs.map Specifier.text) ++
        Snippet.sourceClause source ++ ";\n").toList = "import".toList ++
          ' ' :: ((Snippet.specifierList (specs.map Specifier.text)).toList ++
            ((Snippet.sourceClause source).toList ++ (Symbol.semicolon.spelling ++ ['\n']))) := by
      simp only [String.toList_append, List.append_assoc]
      rfl
    rw [htext]
    exact himport.append ((spells_shown hs hp).after_blank ' ' (by decide))
  match specs, source with
  | [], some path =>
    have hpath := (spells_literal (.inr rfl) (hp path rfl)).append spells_end
    have htext : (Snippet.imports [] (some path)).toList = "import".toList ++
        ' ' :: ('\'' :: (path.toList ++ ['\'']) ++ (Symbol.semicolon.spelling ++ ['\n'])) := by
      simp [Snippet.imports, Symbol.spelling]
    rw [List.map_nil, htext]
    exact himport.append (hpath.after_blank ' ' (by decide))
  | [], none => exact hshown
  | s :: specs, source => exact hshown

end Grammar

namespace Heading
open Grammar

variable {specs : List Specifier} {source : Option String} {ts rest : List Token}
  {location : Location}

theorem nextKind_source_end (h : Writes (sourceMarks source ++ [.symbol .semicolon]) ts rest) :
    nextKind ts = .keyword .source ∨ nextKind ts = .symbol .semicolon := by
  cases source with
  | none =>
    obtain ⟨t, _, rfl, ht, -⟩ := writes_cons.mp h
    exact .inr ht
  | some path =>
    obtain ⟨t, _, rfl, ht, -⟩ := writes_cons.mp h
    exact .inl ht

/-- Without braces, specifiers are read up to what can be none. -/
theorem specifiers_shown (h : Writes (shownMarks specs) ts rest)
    (hr : nextKind rest = .keyword .source ∨ nextKind rest = .symbol .semicolon) :
    specifiers ts = (specs.map Specifier.text, rest) := by
  have hend : nextKind rest ≠ .keyword .renamed ∧ nextKind rest ≠ .symbol .comma ∧
      namesModulePart (nextKind rest) = false := by
    rcases hr with hr | hr <;> simp [hr, namesModulePart]
  rcases specs with _ | ⟨s, _ | ⟨next, specs⟩⟩
  · exact specifiers_writes h
  · have hbare : specifiers ts = specifiersFrom false [] ts := by
      obtain ⟨t, more, rfl, ht, -⟩ := writes_cons.mp h
      have hk : t.kind ≠ .symbol .leftBrace := by
        cases hn : s.name with
        | none =>
          rw [hn] at ht
          simp [ht.1]
        | some name =>
          rw [hn] at ht
          simp [ht.1]
      rw [specifiers, if_neg hk]
    rw [hbare, specifiersFrom_one h hend.1]
    exact specifiersFrom_end hend.2.2 hend.2.1 fun hb => absurd hb Bool.false_ne_true
  · exact specifiers_writes h

theorem shown_opening_writes
    (h : Writes (shownMarks specs ++ (sourceMarks source ++ [.symbol .semicolon])) ts rest) :
    opening .imports location ts =
      some (.whole (.imports (specs.map Specifier.text) source location), rest) := by
  obtain ⟨mid, hspecs, hend⟩ := writes_append.mp h
  obtain ⟨hnext, semi, hsource, hs⟩ := source_end_writes hend
  have hpath : path? (specs.map Specifier.text) mid = (source, semi :: rest) := by
    rw [path?, if_neg fun h => hnext h.2, hsource]
  rw [opening, imports_eq, specifiers_shown hspecs (nextKind_source_end hend), hpath, skip_next hs]

theorem emitted_opening_writes (h : Writes (importMarks specs source) ts rest) :
    opening .imports location ts =
      some (.whole (.imports (specs.map Specifier.text) source location), rest) := by
  match specs, source with
  | [], some path => exact loads_opening_writes h
  | [], none => exact shown_opening_writes h
  | s :: specs, source => exact shown_opening_writes h

end Heading

/-- What an import says: what it names, and the path of its module. -/
def Node.import? : Node → Option (List String × Option String)
  | imports specifiers source _ => some (specifiers, source)
  | construct .. | exports .. | element .. | text .. | expression .. => none

theorem Node.import?_relocate (f : Location → Location) (n : Node) :
    (n.relocate f).import? = n.import? := by
  cases n <;> rfl

namespace Program
open Parse Token

variable {specifiers : List String} {source : Option String}

theorem nodes_named (text : String) : ∀ e ∈ (parseSource text).nodes, e.2.Named := by
  obtain ⟨log, rest, nodes, limited, hread, hts, hnodes⟩ := exists_reading_of_text text
  rw [hnodes]
  exact hread.named (fun t ht => spelled_scan text t (hts t ht)) 1

theorem parse_imports (hs : ∀ s ∈ specifiers, IsSpecifier s)
    (hp : ∀ path ∈ source, Content '\'' path.toList) :
    (parseSource (Snippet.imports specifiers source)).statements.map Node.import? =
      [some (specifiers, source)] := by
  obtain ⟨specs, hspecs, rfl⟩ := Grammar.exists_specifiers hs
  obtain ⟨ts, hwrites, hparse⟩ := exists_tokens (Grammar.spells_imports hspecs hp)
  have hbody := Grammar.body_of_whole (by decide : 0 < maxDepth) hwrites
    fun _ hm => Heading.emitted_opening_writes hm
  rw [← Node.map_relocate (Node.import?_relocate fun _ => .start), hparse, hbody, body_end rfl]
  rfl

/-- An import that is emitted is read again as it was. Only its path may stand in the way, if it has
a quote that would end it, or a backslash that would escape the quote behind it. -/
theorem imports_read_back (text : String) {e : Nat × Node} (he : e ∈ (parseSource text).nodes)
    (hi : e.2.import? = some (specifiers, source))
    (hp : ∀ path ∈ source, QuotesEscaped '\'' path.toList ∧ endsEscaped path.toList = false) :
    (parseSource (⟨[e.2]⟩ : Program).emit.script).statements.map Node.import? =
      [some (specifiers, source)] := by
  have hnamed := nodes_named text e he
  obtain ⟨depth, node⟩ := e
  cases node with
  | imports specifiers source location =>
    cases hi
    rw [emit, Output.ofNodes_singleton, Output.ofNode]
    exact parse_imports hnamed fun path hpath => (content_iff (by decide)).mpr (hp path hpath)
  | construct | exports | element | text | expression => cases hi

/-- An import in a page, with a path that has a quote in it. -/
def importText : String := "page P \x7b import \x7b a as b, * \x7d from \"it\\'s\" \x7d"

theorem imports_read_back_sample : ∃ e ∈ (parseSource importText).nodes,
    e.2.import? = some (["a as b", "*"], some "it\\'s") ∧ Content '\'' "it\\'s".toList ∧
      (parseSource (⟨[e.2]⟩ : Program).emit.script).statements.map Node.import? =
        [some (["a as b", "*"], some "it\\'s")] := by
  obtain ⟨e, he, hi⟩ : ∃ e ∈ (parseSource importText).nodes,
      e.2.import? = some (["a as b", "*"], some "it\\'s") := by decide +kernel
  have hpath : Content '\'' "it\\'s".toList :=
    .plain (by decide) (by decide) (.plain (by decide) (by decide)
      (.escape '\'' (.plain (by decide) (by decide) .nil)))
  refine ⟨e, he, hi, hpath, imports_read_back importText he hi fun path hp => ?_⟩
  cases hp
  exact (content_iff (by decide)).mp hpath

end Program

end Folio
