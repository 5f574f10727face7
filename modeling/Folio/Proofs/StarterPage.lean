import Folio.Proofs.Completeness
import Folio.Proofs.PageDocuments
import Folio.Proofs.Spelling
import Folio.Scaffold

/-! The first document of a project. Whatever the name of the project is, it is spelled so that the
tokenizer takes it as a whole, and the document is compiled to one page with that title. -/

namespace Folio

open Grammar (Statement Writes)
open Token (Content)

/-- A text that spells statements is compiled to what they emit. -/
theorem compile_of_spells {text : String} {ss : List Statement} (options : Options)
    (h : Spells (Statement.listMarks ss) text.toList [])
    (hheight : 0 + Statement.heights ss ≤ maxDepth) :
    compile text options =
      { success := true
        output := Output.ofNodes (Statement.nodes ss)
        errors := []
        warnings := warningsFor (Program.stats ⟨Statement.nodes ss⟩) options } := by
  have hwrites : Writes (Statement.listMarks ss)
      ((Program.significant (Token.scan text)).map (Token.relocate fun _ => .start))
      [⟨.eof, "", .start⟩] := by
    have hwrites := h.append_rest [⟨.eof, "", .start⟩]
    rwa [List.append_nil, ← Token.relocate_placed .start, ← Token.scan_eq, Token.segments] at hwrites
  have hbody := Grammar.body_statements ss hheight hwrites
  rw [Parse.body_map, ← Parse.statements_eq_body, Parse.body_end (by decide)] at hbody
  simp only [Parse.Outcome.relocate, Parse.Outcome.prepend, Parse.Outcome.mk.injEq, List.append_nil,
    Bool.or_false] at hbody
  obtain ⟨hstatements, hlimited, -⟩ := hbody
  have hemit := congrArg Output.ofNodes hstatements
  have hstats := congrArg (({} : Stats).addAll) hstatements
  rw [Stats.addAll_relocateAll] at hstats
  simp only [Output.ofNodes, Output.ofNodesAfter_relocateAll] at hemit
  simp only [compile, Program.emit, Output.ofNodes, Program.stats, hlimited, hemit, hstats,
    Bool.false_eq_true, if_false, List.append_nil]

namespace Scaffold

variable {name : String} {rest : List Char}

/-- A name needs no escapes between quotes. -/
theorem content_of_valid (h : isValidName name = true) : Content '"' name.toList := by
  have hall : ∀ c ∈ name.toList, c ≠ '"' ∧ c ≠ '\\' := by
    simp only [isValidName, Bool.and_eq_true] at h
    intro c hc
    have hvalid := List.all_eq_true.mp h.2 c hc
    constructor <;> rintro rfl <;> exact absurd hvalid (by decide)
  generalize name.toList = cs at hall
  induction cs with
  | nil => exact .nil
  | cons c cs ih =>
    obtain ⟨⟨hquote, hslash⟩, hcs⟩ := List.forall_mem_cons.mp hall
    exact .plain hquote hslash (ih hcs)

/-- The statements of the first document. -/
def starterStatements (name : String) : List Statement :=
  [.construct ⟨.plain .page, some "Home", .ofList [("title", name)], .inl rfl⟩
      [.construct ⟨.plain .layout, some "Main", .empty, .inl rfl⟩ [] .start] .start,
    .construct ⟨.component [], some "Welcome", .empty, .inl rfl⟩ [] .start,
    .construct ⟨.plain .style, some "home", .empty, .inl rfl⟩ [] .start]

theorem spells_titled (k : Keyword) {word : String} (hword : IsIdentifier word)
    {marks : List Grammar.Mark} {cs : List Char} (h : Spells marks cs rest) :
    Spells (.opener k .start :: .name word :: marks)
      (k.spelling.toList ++ ' ' :: (word.toList ++ ' ' :: cs)) rest := by
  have hname : Spells [.name word] word.toList (' ' :: cs ++ rest) :=
    spells_name hword (endsWord_cons ' ' (by decide))
  have htitle := (hname.append (h.after_blank ' ' (by decide))).after_blank ' ' (by decide)
  exact (spells_opener k (endsWord_cons ' ' (by decide))).append htitle

/-- A construct with nothing in its body. -/
def emptyBlock (k : Keyword) (word : String) : List Char :=
  k.spelling.toList ++ ' ' :: (word.toList ++ ' ' ::
    (Symbol.leftBrace.spelling ++ ' ' :: Symbol.rightBrace.spelling))

theorem spells_emptyBlock (k : Keyword) {word : String} (hword : IsIdentifier word) :
    Spells [.opener k .start, .name word, .symbol .leftBrace, .symbol .rightBrace] (emptyBlock k word)
      rest := by
  have hclose : Spells [.symbol .rightBrace] Symbol.rightBrace.spelling rest := spells_symbol (by decide)
  exact spells_titled k hword ((spells_symbol (by decide)).append (hclose.after_blank ' ' (by decide)))

theorem spells_assign {c : Char} (hc : Symbol.ofPair? '=' c = none) :
    Spells [.symbol .assign] Symbol.assign.spelling (c :: rest) := by
  refine spells_token (lexeme_lone rfl (by decide) ?_) rfl rfl
  rw [Symbol.longest?, List.head?_cons, Option.bind_some, hc]
  rfl

theorem spells_starterPage (h : isValidName name = true) :
    Spells (Statement.listMarks (starterStatements name)) (starterPage name).toList [] := by
  have htext : (starterPage name).toList = (Keyword.block .page).spelling.toList ++ ' ' ::
      ("Home".toList ++ ' ' :: ("title".toList ++ (Symbol.assign.spelling ++
        ('"' :: (name.toList ++ ['"']) ++ ' ' :: (Symbol.leftBrace.spelling ++ '\n' :: ' ' :: ' ' ::
          (emptyBlock (.block .layout) "Main" ++ '\n' :: (Symbol.rightBrace.spelling ++ '\n' :: '\n' ::
            (emptyBlock .component "Welcome" ++ '\n' :: '\n' ::
              (emptyBlock (.block .style) "home" ++ ['\n']))))))))) := by
    unfold starterPage
    simp [emptyBlock, Keyword.spelling, Block.spelling, Symbol.spelling]
  -- From the end, since a word is cut off by what comes after it.
  have hend : Spells [] ['\n'] [] := spells_nothing.after_blank '\n' (by decide)
  have hstyle := (spells_emptyBlock (.block .style) (show IsIdentifier "home" by decide)).append hend
  have hcomponent := (spells_emptyBlock .component (show IsIdentifier "Welcome" by decide)).append
    ((hstyle.after_blank '\n' (by decide)).after_blank '\n' (by decide))
  have hclose := (spells_symbol (show .rightBrace ∈ loneSymbols by decide)).append
    ((hcomponent.after_blank '\n' (by decide)).after_blank '\n' (by decide))
  have hlayout := (spells_emptyBlock (.block .layout) (show IsIdentifier "Main" by decide)).append
    (hclose.after_blank '\n' (by decide))
  have hopen := (spells_symbol (show .leftBrace ∈ loneSymbols by decide)).append
    (((hlayout.after_blank ' ' (by decide)).after_blank ' ' (by decide)).after_blank '\n' (by decide))
  have hvalue := (spells_literal (.inl rfl) (content_of_valid h)).append (hopen.after_blank ' ' (by decide))
  have hattribute := (spells_name (show IsIdentifier "title" by decide)
    (endsWord_cons '=' (by decide))).append ((spells_assign rfl).append hvalue)
  rw [htext]
  exact spells_titled (.block .page) (show IsIdentifier "Home" by decide) hattribute

/-- The page of a new project, with its name as the title. -/
def starterMarkup (name : String) : String :=
  Snippet.pageHead ++ Snippet.titleLine name ++ Snippet.pageLinks ++ Snippet.pageEnd

theorem compile_starterPage (h : isValidName name = true) :
    (compile (starterPage name) {}).output.markup = starterMarkup name ∧
      (compile (starterPage name) {}).warnings = [] := by
  have hheight : 0 + Statement.heights (starterStatements name) ≤ maxDepth := Nat.le_of_ble_eq_true rfl
  have hpages : Node.documentsAll (Statement.nodes (starterStatements name)) = [.mk (some name) []] := rfl
  rw [compile_of_spells {} (spells_starterPage h) hheight]
  constructor
  · rw [Node.markup_ofNodes, hpages]
    simp [PageDocument.renderAll, PageDocument.render, Snippet.pageStart_some, starterMarkup]
  · have hcount : (Program.stats ⟨Statement.nodes (starterStatements name)⟩).count Block.page.spelling =
        1 := by
      rw [Program.count_stats, Program.nodes, Node.countKind_pages, hpages]
      rfl
    simp [warningsFor, hcount]

end Scaffold

end Folio
