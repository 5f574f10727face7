import Folio.Proofs.Headings

/-! The parser is complete for the surface grammar: statements come back from the tokens that write
them, whatever layout stands between the tokens. -/

namespace Folio

namespace Heading
open Token (Kind)
open Grammar

variable {ts rest : List Token} {location : Location}

theorem definition_opening_writes {name : Option String} {content : Definition}
    (h : Writes (nameMarks name ++ (.symbol .assign :: (content.marks ++ [.symbol .semicolon])))
      ts rest) :
    opening .type location ts = some (.whole (Statement.definition name content location).node, rest) := by
  obtain ⟨mid, hn, h⟩ := writes_append.mp h
  obtain ⟨assign, more, rfl, ha, h⟩ := writes_cons.mp h
  obtain ⟨_, hd, h⟩ := writes_append.mp h
  obtain ⟨semi, _, rfl, hs, h⟩ := writes_cons.mp h
  obtain rfl := writes_nil.mp h
  have ha : assign.kind = .symbol .assign := ha
  have hname := name_writes hn (by simp [ha])
  simp [opening, Heading.type, hname, ha, definition_writes content hd hs, skip_next hs,
    Statement.node]

/-- The end of a module statement: the path of the module, if it has one, and a semicolon. -/
theorem source_end_writes {source : Option String}
    (h : Writes (sourceMarks source ++ [.symbol .semicolon]) ts rest) :
    nextKind ts ≠ .string ∧ ∃ semi, source? ts = (source, semi :: rest) ∧
      semi.kind = .symbol .semicolon := by
  obtain ⟨mid, hsource, h⟩ := writes_append.mp h
  obtain ⟨semi, _, rfl, hs, h⟩ := writes_cons.mp h
  obtain rfl := writes_nil.mp h
  have hs : semi.kind = .symbol .semicolon := hs
  refine ⟨?_, semi, source?_writes hsource (by simp [hs]), hs⟩
  cases source with
  | none =>
    obtain rfl := writes_nil.mp hsource
    simp [hs]
  | some path =>
    obtain ⟨t, _, rfl, ht, -⟩ := writes_cons.mp hsource
    have ht : t.kind = .keyword .source := ht
    simp [ht]

theorem imports_opening_writes {specs : List Specifier} {source : Option String}
    (h : Writes (specifierMarks specs ++ (sourceMarks source ++ [.symbol .semicolon])) ts rest) :
    opening .imports location ts = some (.whole (Statement.imports specs source location).node, rest) := by
  obtain ⟨mid, hspecs, h⟩ := writes_append.mp h
  obtain ⟨hnext, semi, hsource, hs⟩ := source_end_writes h
  simp only [opening, Heading.imports, specifiers_writes hspecs, string?_none hnext]
  cases specs <;> simp [hsource, skip_next hs, Statement.node]

theorem loads_opening_writes {path : String}
    (h : Writes [.literal path, .symbol .semicolon] ts rest) :
    opening .imports location ts = some (.whole (Statement.loads path location).node, rest) := by
  obtain ⟨t, _, rfl, ⟨hk, ht⟩, h⟩ := writes_cons.mp h
  obtain ⟨semi, _, rfl, hs, h⟩ := writes_cons.mp h
  obtain rfl := writes_nil.mp h
  have hspecs (more : List Token) : specifiers (t :: more) = ([], t :: more) := by
    rw [specifiers, if_neg (by simp [hk]), specifiersFrom.eq_def]
    simp [hk]
  simp [opening, Heading.imports, hspecs, string?, hk, ht, skip_next hs, Statement.node]

theorem exports_opening_writes {isDefault : Bool} {specs : List Specifier} {source : Option String}
    (h : Writes ((if isDefault then [.name "default"] else []) ++
      (specifierMarks specs ++ (sourceMarks source ++ [.symbol .semicolon]))) ts rest) :
    opening .exports location ts =
      some (.whole (Statement.exports isDefault specs source location).node, rest) := by
  obtain ⟨mid, hdefault, h⟩ := writes_append.mp h
  obtain ⟨last, hspecs, h⟩ := writes_append.mp h
  obtain ⟨-, semi, hsource, hs⟩ := source_end_writes h
  have hstart : startsDefault ts = isDefault ∧ (if isDefault then ts.tail else ts) = mid := by
    cases isDefault with
    | false =>
      obtain rfl := writes_nil.mp hdefault
      obtain ⟨t, _, rfl, ht, -⟩ := writes_cons.mp hspecs
      have ht : t.kind = .symbol .leftBrace := ht
      simp [startsDefault, ht]
    | true =>
      obtain ⟨t, more, rfl, ⟨hk, ht⟩, hm⟩ := writes_cons.mp hdefault
      obtain rfl := writes_nil.mp hm
      simp [startsDefault, hk, ht]
  simp [opening, Heading.exports, hstart.1, hstart.2, specifiers_writes hspecs, hsource,
    skip_next hs, Statement.node]

end Heading

namespace Grammar
open Heading Parse

variable {depth : Nat} {ts rest : List Token}

theorem endsBody_keyword {t : Token} {k : Keyword} (h : t.kind = .keyword k) :
    endsBody depth t.kind = false := by
  simp [endsBody, h]

theorem not_tooDeep (h : depth < maxDepth) : tooDeep (some maxDepth) depth = false := by
  simpa [tooDeep] using h

/-- A statement with no body of its own, after its keyword was found. -/
theorem body_of_whole {k : Keyword} {location : Location} {ms : List Mark} {node : Node}
    (hd : depth < maxDepth) (h : Writes (.opener k location :: ms) ts rest)
    (ho : ∀ more, Writes ms more rest → Heading.opening k location more = some (.whole node, rest)) :
    body maxDepth depth ts = (body maxDepth depth rest).prepend [node] false := by
  obtain ⟨t, more, rfl, ⟨hk, rfl⟩, hm⟩ := writes_cons.mp h
  apply body_whole (endsBody_keyword hk) (not_tooDeep hd)
  rw [Parse.opening, hk]
  exact ho more hm

mutual

/-- One statement is parsed from its tokens, and parsing goes on after them. -/
theorem body_statement (s : Statement) {depth : Nat} {ts rest : List Token}
    (hh : depth + s.height ≤ maxDepth) (h : Writes s.marks ts rest) :
    body maxDepth depth ts = (body maxDepth depth rest).prepend [s.node] false := by
  cases s with
  | construct title children location =>
    rw [Statement.height] at hh
    obtain ⟨t, more, rfl, ⟨hk, rfl⟩, hm⟩ := writes_cons.mp h
    obtain ⟨_, htitle, hm⟩ := writes_append.mp hm
    obtain ⟨brace, block, rfl, hb, hm⟩ := writes_cons.mp hm
    obtain ⟨_, hchildren, hm⟩ := writes_append.mp hm
    obtain ⟨close, after, rfl, hc, hm⟩ := writes_cons.mp hm
    obtain rfl := writes_nil.mp hm
    have hc : close.kind = .symbol .rightBrace := hc
    have hinner : body maxDepth (depth + 1) block =
        ⟨Statement.nodes children, false, close :: after⟩ := by
      rw [body_statements children (by omega) hchildren, body_end (by simp [endsBody, hc])]
      simp [Outcome.prepend]
    -- Only the body of a type takes a semicolon that follows it.
    have hafter : body maxDepth depth (afterBody title.header (close :: after)) =
        body maxDepth depth after := by
      cases title.header <;> simp [afterBody, skip_next hc, body_skip_semicolon]
    have hopen : Parse.opening t more =
        some (.construct title.header (title.name.getD "") title.attributes, brace :: block) := by
      rw [Parse.opening, hk]
      exact opening_writes title t.location htitle hb
    rw [body_block (endsBody_keyword hk) (not_tooDeep (by omega)) hopen hb, hinner, hafter]
    rw [Statement.node]
  | definition name content location =>
    rw [Statement.height] at hh
    exact body_of_whole (by omega) h fun _ hm => definition_opening_writes hm
  | imports specs source location =>
    rw [Statement.height] at hh
    exact body_of_whole (by omega) h fun _ hm => imports_opening_writes hm
  | loads path location =>
    rw [Statement.height] at hh
    exact body_of_whole (by omega) h fun _ hm => loads_opening_writes hm
  | exports isDefault specs source location =>
    rw [Statement.height] at hh
    exact body_of_whole (by omega) h fun _ hm => exports_opening_writes hm

theorem body_statements (ss : List Statement) {depth : Nat} {ts rest : List Token}
    (hh : depth + Statement.heights ss ≤ maxDepth) (h : Writes (Statement.listMarks ss) ts rest) :
    body maxDepth depth ts = (body maxDepth depth rest).prepend (Statement.nodes ss) false := by
  cases ss with
  | nil =>
    obtain rfl := writes_nil.mp h
    simp [Outcome.prepend, Statement.nodes]
  | cons s ss =>
    rw [Statement.heights] at hh
    obtain ⟨mid, hs, hss⟩ := writes_append.mp h
    rw [body_statement s (by omega) hs, body_statements ss (by omega) hss]
    simp [Outcome.prepend, Statement.nodes]

end

/-- Statements come back from the tokens that write them, each at the place of its keyword. Layout may
stand anywhere between the tokens, and nothing is asked of where a token stands. -/
theorem parse_writes (ss : List Statement) (tokens rest : List Token)
    (hh : Statement.heights ss ≤ maxDepth)
    (hw : Writes (Statement.listMarks ss) (Program.significant tokens) rest)
    (hr : ∀ t ∈ rest.head?, t.kind = .eof) :
    Program.parse tokens = ⟨Statement.nodes ss⟩ := by
  have hend : body maxDepth 0 rest = ⟨[], false, rest⟩ := by
    cases rest with
    | nil => simp
    | cons t rest => rw [body_end (by simp [endsBody, hr t rfl])]
  rw [Program.parse, statements_eq_body, body_statements ss (by omega) hw, hend]
  simp [Outcome.prepend]

def sampleText : String :=
  "page P title=\"Hi\" \x7b\n  component L<T> \x7b event e on x \x7b \x7d \x7d\n\x7d\n" ++
  "type I = \x7b page; \x7d | A;\nimport \x7b a as b, * \x7d from 'm'; // all\nexport default \x7b c \x7d;"

def sampleStatements : List Statement :=
  [.construct ⟨.plain .page, some "P", .ofList [("title", "Hi")], by decide⟩
      [.construct ⟨.component ["T"], some "L", .empty, by decide⟩
        [.construct ⟨.event (some "x"), some "e", .empty, by decide⟩ [] ⟨2, 20⟩] ⟨2, 3⟩]
      ⟨1, 1⟩,
    .definition (some "I")
      ⟨[(.symbol .leftBrace, "\x7b"), (.keyword (.block .page), "page"), (.symbol .semicolon, ";"),
          (.symbol .rightBrace, "\x7d"), (.symbol .pipe, "|"), (.identifier, "A")],
        by decide, by decide, by decide⟩ ⟨4, 1⟩,
    .imports [⟨some "a", some "b"⟩, ⟨none, none⟩] (some "m") ⟨5, 1⟩,
    .exports true [⟨some "c", none⟩] none ⟨6, 1⟩]

theorem parse_writes_sample :
    Statement.heights sampleStatements ≤ maxDepth ∧
      Writes (Statement.listMarks sampleStatements) (Program.significant (Token.scan sampleText))
        [⟨.eof, "", ⟨6, 22⟩⟩] ∧
      Program.parse (Token.scan sampleText) = ⟨Statement.nodes sampleStatements⟩ :=
  have hw : Writes (Statement.listMarks sampleStatements)
      (Program.significant (Token.scan sampleText)) [⟨.eof, "", ⟨6, 22⟩⟩] := by decide +kernel
  ⟨by decide, hw, parse_writes sampleStatements (Token.scan sampleText) _ (by decide) hw (by decide)⟩

end Grammar

end Folio
