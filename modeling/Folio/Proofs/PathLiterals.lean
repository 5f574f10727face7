import Folio.Proofs.ImportLines

/-! The paths of modules. A path is the value of a literal of the source, and it is emitted between
single quotes as it is. What was written between double quotes, or never closed, may end too early or
too late there. -/

namespace Folio

/-- The path of a module, in a statement that has one. -/
def Node.modulePath? : Node → Option String
  | imports _ source _ | exports _ source _ _ => source
  | construct .. | element .. | text .. | expression .. => none

/-- A path between single quotes. -/
def quotedPath (path : String) : String := "'" ++ path ++ "'"

namespace Token

variable {t : Token} {path source : String} {cs after : List Char} {place : Location}
  {ts : List Token}

/-- A token that is the whole literal of a path, with nothing more in it. -/
structure Holds (t : Token) (path : String) : Prop where
  kind : t.kind = .string
  text : t.text = quotedPath path
  value : t.value = path

/-- In front of `after` the tokenizer finds a path that is quoted as a whole. -/
def Intact (path after : String) : Prop := ∃ t ∈ (scan (quotedPath path ++ after)).head?, t.Holds path

theorem Tokens.lexeme (h : Tokens place cs ts) :
    ∀ t ∈ ts, t.kind ≠ .eof → ∃ after, Lexeme t.kind t.text.toList after := by
  induction h with
  | done => simp
  | @token _ _ _ rest _ h _ ih =>
    refine List.forall_mem_cons.mpr ⟨fun _ => ⟨rest, ?_⟩, ih⟩
    rwa [String.toList_ofList]
  | dropped _ _ ih => exact ih

theorem toList_quotedPath : (quotedPath path).toList = '\'' :: (path.toList ++ ['\'']) := by
  simp [quotedPath]

/-- The last quote belongs to the value of a literal that it does not close. -/
theorem Holds.content (h : t.Holds path) (hl : Literal '\'' t.text.toList after) :
    Content '\'' path.toList := by
  have hkind : literalKind '\'' = some t.kind := by
    rw [h.kind]
    rfl
  have hvalue : unquoted t.text.toList = path.toList := by
    rw [← h.value, value_of_literalKind hkind, String.toList_ofList]
  have htext : t.text.toList = '\'' :: (path.toList ++ ['\'']) := by rw [h.text, toList_quotedPath]
  generalize t.text.toList = text at hl hvalue htext
  cases hl with
  | closed hcontent =>
    rw [List.cons.injEq, List.append_left_inj] at htext
    exact htext.2 ▸ hcontent
  | @unclosed content hcontent =>
    rw [unquoted_open (hcontent.quotesEscaped (by decide))] at hvalue
    simp [hvalue] at htext
  | escaping =>
    rw [List.cons.injEq] at htext
    exact absurd (List.append_singleton_inj.mp htext.2).2 (by decide)

theorem content_of_holds (ht : t ∈ scan source) (h : t.Holds path) : Content '\'' path.toList := by
  rw [scan_eq] at ht
  obtain ⟨after, hlexeme⟩ :=
    (tokens_placed .start source.toList).lexeme t ht (by simp [h.kind])
  obtain ⟨quote, -, hliteral⟩ := hlexeme.literal (.inl h.kind)
  have hquote : quote = '\'' := by
    rw [h.text, toList_quotedPath] at hliteral
    exact hliteral.head.symm
  exact h.content (hquote ▸ hliteral)

theorem intact_iff (path after : String) : Intact path after ↔
    QuotesEscaped '\'' path.toList ∧ endsEscaped path.toList = false := by
  rw [← content_iff (by decide)]
  constructor
  · rintro ⟨t, ht, h⟩
    exact content_of_holds (List.mem_of_mem_head? ht) h
  · intro h
    have hlexeme : Lexeme .string (quotedPath path).toList after.toList := by
      rw [toList_quotedPath]
      exact .string (.inr rfl) (.closed h _)
    refine ⟨⟨.string, quotedPath path, .start⟩, ?_, rfl, rfl, ?_⟩
    · rw [scan_eq, String.toList_append, segments_token hlexeme]
      simp [placed, Segment.at]
    · simp [Token.value, toList_quotedPath, unquoted_closed h]

end Token

namespace Snippet
open Text (Clean)

variable {specifiers : List String} {path : String}

theorem quote_not_mem_intercalate (hs : ∀ s ∈ specifiers, Clean s) :
    '\'' ∉ (", ".intercalate specifiers).toList := by
  induction specifiers with
  | nil => simp
  | cons s specifiers ih =>
    obtain ⟨hfirst, hspecifiers⟩ := List.forall_mem_cons.mp hs
    have hquote : '\'' ∉ s.toList := fun hm => hfirst _ hm (by decide)
    cases specifiers with
    | nil => simpa using hquote
    | cons next specifiers => simpa [String.intercalate_cons_cons, hquote] using ih hspecifiers

theorem quote_not_mem_specifierList (hs : ∀ s ∈ specifiers, Clean s) :
    '\'' ∉ (specifierList specifiers).toList := by
  have hmany := quote_not_mem_intercalate hs
  rcases specifiers with _ | ⟨s, _ | ⟨next, specifiers⟩⟩
  · decide
  · simpa [specifierList] using hmany
  · simpa [specifierList] using hmany

/-- The first quote in the line of a statement is the one that opens its path. -/
theorem imports_path (hs : ∀ s ∈ specifiers, Clean s) :
    ∃ before, imports specifiers (some path) = before ++ quotedPath path ++ ";\n" ∧
      '\'' ∉ before.toList := by
  cases specifiers with
  | nil =>
    refine ⟨"import ", ?_, by decide⟩
    simp [imports, quotedPath, ← String.toList_inj]
  | cons s specifiers =>
    refine ⟨"import " ++ specifierList (s :: specifiers) ++ " from ", ?_, ?_⟩
    · simp [imports, sourceClause, quotedPath, ← String.toList_inj]
    · simpa using quote_not_mem_specifierList hs

theorem exports_path (hs : ∀ s ∈ specifiers, Clean s) (isDefault : Bool) :
    ∃ before, exports specifiers (some path) isDefault = before ++ quotedPath path ++ ";\n" ∧
      '\'' ∉ before.toList := by
  refine ⟨"export " ++ (if isDefault then "default " else "") ++ specifierList specifiers ++ " from ",
    ?_, ?_⟩
  · simp [exports, sourceClause, quotedPath, ← String.toList_inj]
  · cases isDefault <;> simpa using quote_not_mem_specifierList hs

end Snippet

namespace Heading

variable {k : Keyword} {α : Type} {f : List Token → α × List Token} {ts : List Token}
  {path? : Option String}

/-- A path that is the value of a literal among the tokens. -/
def Written (ts : List Token) (path? : Option String) : Prop :=
  ∀ path ∈ path?, ∃ t ∈ ts, t.kind = .string ∧ t.value = path

theorem Written.mono {us : List Token} (h : Written ts path?) (hsub : ∀ t ∈ ts, t ∈ us) :
    Written us path? := by
  intro path hp
  obtain ⟨t, ht, hliteral⟩ := h path hp
  exact ⟨t, hsub t ht, hliteral⟩

theorem written_none : Written ts none := nofun

theorem written_string? (ts : List Token) : Written ts (string? ts).1 := by
  cases ts with
  | nil => exact written_none
  | cons t ts =>
    rw [string?]
    split
    · next hk =>
      intro path hp
      cases hp
      exact ⟨t, .head _, hk, rfl⟩
    · exact written_none

theorem written_source? (ts : List Token) : Written ts (source? ts).1 := by
  cases ts with
  | nil => exact written_none
  | cons t ts =>
    rw [source?]
    split
    · exact (written_string? ts).mono fun _ => .tail t
    · exact written_none

theorem written_path? (specifiers : List String) (ts : List Token) :
    Written ts (Heading.path? specifiers ts).1 := by
  rw [Heading.path?]
  split
  · exact written_string? ts
  · exact written_source? ts

theorem Written.behind (h : Written (f ts).2 path?) (hf : Takes k f) : Written ts path? :=
  h.mono fun _ => hf.mem

end Heading

namespace Parse
open Heading

variable {t : Token} {ts after heading : List Token} {node : Node}

theorem opening_written (h : opening t ts = some (.whole node, after)) :
    Written ts node.modulePath? := by
  unfold opening at h
  split at h
  · next k _ =>
    cases k with
    | imports =>
      rw [Heading.opening, imports_eq] at h
      cases h
      exact (written_path? _ _).behind takes_specifiers (k := .imports)
    | exports =>
      rw [Heading.opening, exports_eq] at h
      cases h
      exact ((written_source? _).behind takes_specifiers (k := .exports)).behind
        takes_default? (k := .exports)
    | type =>
      simp only [Heading.opening, type_eq, typeEnd, Option.some.injEq] at h
      split at h
      · cases h
        exact written_none
      · cases h
    | _ => cases h
  · cases h

theorem LeafHeading.written (h : LeafHeading t heading node after) :
    Written (heading ++ after) node.modulePath? := by
  obtain ⟨_, ⟨⟩, ho⟩ | ⟨_, _, _, _, ⟨⟩, _⟩ | ⟨_, _, _, _, ⟨⟩, _⟩ := start_cases (h.read after rfl)
  · exact opening_written ho
  · exact written_none

end Parse

namespace Program
open Token Parse

theorem nodes_written (text : String) :
    ∀ e ∈ (parseSource text).nodes, Heading.Written (scan text) e.2.modulePath? := by
  obtain ⟨log, rest, nodes, limited, hread, hts, hnodes⟩ := exists_reading_of_text text
  rw [hnodes]
  exact hread.forall_nodes (S := (· ∈ scan text)) (fun h hts => h.written.mono hts)
    (fun _ _ _ _ => Heading.written_none) hts 1

/-- A path is emitted between two quotes, of which the first is the first one in the line. The tokenizer
finds it there as a whole, whatever comes behind it, exactly if all quotes in it are escaped and it does
not escape the quote at its end. A path that was written between single quotes is always found. -/
theorem paths_intact_iff (text : String) {e : Nat × Node} {path : String}
    (he : e ∈ (parseSource text).nodes) (hp : e.2.modulePath? = some path) :
    (∃ before, (⟨[e.2]⟩ : Program).emit.script = before ++ quotedPath path ++ ";\n" ∧
        '\'' ∉ before.toList) ∧
      (∀ after, Intact path after ↔
        QuotesEscaped '\'' path.toList ∧ endsEscaped path.toList = false) ∧
      ∃ t ∈ scan text, t.kind = .string ∧ t.value = path ∧
        (t.text = quotedPath path → ∀ after, Intact path after) := by
  refine ⟨?_, intact_iff path, ?_⟩
  · have hclean := (nodes_named text e he).clean
    obtain ⟨depth, node⟩ := e
    cases node with
    | imports specifiers source location =>
      cases hp
      rw [emit, Output.ofNodes_singleton, Output.ofNode]
      exact Snippet.imports_path hclean
    | exports specifiers source isDefault location =>
      cases hp
      rw [emit, Output.ofNodes_singleton, Output.ofNode]
      exact Snippet.exports_path hclean isDefault
    | construct | element | text | expression => cases hp
  · obtain ⟨t, ht, hk, hv⟩ := nodes_written text e he path hp
    refine ⟨t, ht, hk, hv, fun htext after => ?_⟩
    have hcontent := content_of_holds ht ⟨hk, htext, hv⟩
    exact (intact_iff path after).mpr ((content_iff (by decide)).mp hcontent)

/-- A path whose literal the end of the source cuts off, with a quote in it that is escaped. -/
def cutPathText : String := "page P \x7b export default a as b from \"it\\'s"

theorem paths_intact_sample : ∃ e ∈ (parseSource cutPathText).nodes,
    e.2.modulePath? = some "it\\'s" ∧ (∀ after, Intact "it\\'s" after) ∧
      ∃ before, (⟨[e.2]⟩ : Program).emit.script = before ++ quotedPath "it\\'s" ++ ";\n" ∧
        '\'' ∉ before.toList := by
  obtain ⟨e, he, hp⟩ : ∃ e ∈ (parseSource cutPathText).nodes,
      e.2.modulePath? = some "it\\'s" := by decide +kernel
  have hpath : Content '\'' "it\\'s".toList := by decide +kernel
  have hintact := paths_intact_iff cutPathText he hp
  exact ⟨e, he, hp, fun after => (hintact.2.1 after).mpr ((content_iff (by decide)).mp hpath),
    hintact.1⟩

/-- A single quote needs no backslash between double quotes. Between single quotes it ends the path. -/
theorem path_ends_at_quote : ∃ e ∈ (parseSource "import \"it's\"").nodes,
    e.2.modulePath? = some "it's" ∧
      (⟨[e.2]⟩ : Program).emit.script = "import " ++ quotedPath "it's" ++ ";\n" ∧
      ¬Intact "it's" ";\n" := by
  obtain ⟨e, he, hp, hscript⟩ : ∃ e ∈ (parseSource "import \"it's\"").nodes,
      e.2.modulePath? = some "it's" ∧
        (⟨[e.2]⟩ : Program).emit.script = "import " ++ quotedPath "it's" ++ ";\n" := by
    decide +kernel
  refine ⟨e, he, hp, hscript, ?_⟩
  have hfound : (scan (quotedPath "it's" ++ ";\n")).head? = some ⟨.string, "'it'", .start⟩ := by
    decide +kernel
  rintro ⟨t, ht, h⟩
  rw [hfound] at ht
  cases ht
  exact absurd h.text (by decide)

end Program

end Folio
