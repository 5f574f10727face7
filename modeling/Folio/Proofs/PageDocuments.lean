import Folio.Proofs.Emission
import Folio.Proofs.Statistics
import Folio.Result

/-! The pages of a document, and the pages that its markup is made of. The markup shows a page just if
nothing but pages stands above it. The warning about several pages counts all of them. -/

namespace Folio

/-- A page in the markup: its title, and the pages that it shows in its body. -/
inductive PageDocument where
  | mk (title : Option String) (inner : List PageDocument)

namespace PageDocument

mutual

/-- The markup of a page. -/
def render : PageDocument → String
  | mk title inner => Snippet.pageStart title ++ renderAll inner ++ Snippet.pageEnd

def renderAll : List PageDocument → String
  | [] => ""
  | d :: ds => render d ++ renderAll ds

end

mutual

/-- How many pages there are in the markup of a page. -/
def size : PageDocument → Nat
  | mk _ inner => sizeAll inner + 1

def sizeAll : List PageDocument → Nat
  | [] => 0
  | d :: ds => size d + sizeAll ds

end

theorem renderAll_append (ds more : List PageDocument) :
    renderAll (ds ++ more) = renderAll ds ++ renderAll more := by
  induction ds with
  | nil => simp [renderAll]
  | cons d ds ih => rw [List.cons_append, renderAll, renderAll, ih, String.append_assoc]

theorem sizeAll_append (ds more : List PageDocument) :
    sizeAll (ds ++ more) = sizeAll ds + sizeAll more := by
  induction ds with
  | nil => simp [sizeAll]
  | cons d ds ih => rw [List.cons_append, sizeAll, sizeAll, ih, Nat.add_assoc]

end PageDocument

namespace Node
open PageDocument

mutual

/-- The pages that a node shows in the markup. -/
def documents : Node → List PageDocument
  | construct header _ attributes children _ =>
    if header.isPage then [.mk (attributes.get? "title") (documentsAll children)] else []
  | imports .. | exports .. | element .. | text .. | expression .. => []

def documentsAll : List Node → List PageDocument
  | [] => []
  | n :: ns => documents n ++ documentsAll ns

end

/-- How many pages there are among nodes and below them. -/
def pages (ns : List Node) : Nat := countKind Block.page.spelling (preorderAll 1 ns)

mutual

/-- How many pages there are below a node that the markup does not show, because something else than a
page is above them. -/
def hidden : Node → Nat
  | construct header _ _ children _ => if header.isPage then hiddenAll children else pages children
  | element _ _ children _ _ => pages children
  | imports .. | exports .. | text .. | expression .. => 0

def hiddenAll : List Node → Nat
  | [] => 0
  | n :: ns => hidden n + hiddenAll ns

end

theorem isPage_iff {header : Header} :
    header.isPage = true ↔ header.keyword.spelling = Block.page.spelling := by
  rcases header with (_ | _ | _ | _ | _ | _ | _ | _ | _) | _ | _ | _ | _ | _ <;>
    simp [Header.isPage, Header.keyword, Keyword.spelling, Block.spelling]

mutual

/-- The markup of a node is that of its pages. -/
theorem markup_ofNode (n : Node) : (Output.ofNode n).markup = renderAll n.documents := by
  cases n with
  | construct header name attributes children location =>
    rw [Output.ofNode, documents]
    split
    · next hpage =>
      have hbody := markup_ofNodes children
      obtain rfl : header = .plain .page := by simpa [Header.isPage] using hpage
      rw [Output.ofNodes] at hbody
      simp only [Output.construct, Output.page, hbody, renderAll, render, String.append_empty]
    · next hpage =>
      rcases header with (_ | _ | _ | _ | _ | _ | _ | _ | _) | _ | _ | _ | _ | _
      case plain.page => exact absurd rfl hpage
      all_goals rfl
  | imports | exports | element | text | expression => rfl

theorem markup_ofNodes (ns : List Node) :
    (Output.ofNodes ns).markup = renderAll (documentsAll ns) := by
  cases ns with
  | nil => rfl
  | cons n ns =>
    rw [Output.ofNodes_cons, Output.append_mk, documentsAll, renderAll_append, ← markup_ofNode n,
      ← markup_ofNodes ns]

end

mutual

theorem pages_write (w : Writer) (n : Node) : (w.write n).pages = w.pages + sizeAll n.documents := by
  cases n with
  | construct header name attributes children location =>
    rw [documents]
    split
    · next hpage =>
      obtain rfl : header = .plain .page := by simpa [Header.isPage] using hpage
      have hbody := pages_writeAll (w.openPage (attributes.get? "title")) children
      have hopened : (w.openPage (attributes.get? "title")).pages = w.pages + 1 := rfl
      rw [Writer.write]
      simp only [Writer.markup, hbody, hopened, sizeAll, size]
      omega
    · next hpage =>
      rcases header with (_ | _ | _ | _ | _ | _ | _ | _ | _) | _ | _ | _ | _ | _
      case plain.page => exact absurd rfl hpage
      all_goals rfl
  | imports | exports | element | text | expression => rfl

/-- Writing nodes opens a page for each page of the markup. -/
theorem pages_writeAll (w : Writer) (ns : List Node) :
    (w.writeAll ns).pages = w.pages + sizeAll (documentsAll ns) := by
  cases ns with
  | nil => rfl
  | cons n ns =>
    rw [Writer.writeAll, pages_writeAll (w.write n) ns, pages_write w n, documentsAll, sizeAll_append,
      Nat.add_assoc]

end

mutual

theorem countKind_page (depth : Nat) (n : Node) :
    countKind Block.page.spelling (n.preorder depth) = sizeAll n.documents + n.hidden := by
  cases n with
  | construct header name attributes children location =>
    have hbody := countKind_pages (depth + 1) children
    rw [preorder, countKind_cons, documents, hidden]
    by_cases hpage : header.isPage = true
    · have hkind := isPage_iff.mp hpage
      simp only [hpage, if_true, kind, hkind, hbody, sizeAll, size]
      omega
    · have hkind := mt isPage_iff.mpr hpage
      simp only [hpage, Bool.false_eq_true, if_false, kind, hkind, sizeAll, pages]
      rw [countKind_preorderAll children (depth + 1) 1]
  | element tag attributes children selfClosing location =>
    rw [preorder, countKind_cons, documents, hidden, pages,
      countKind_preorderAll children (depth + 1) 1]
    rfl
  | imports | exports | text | expression => rfl

/-- The pages of a document are those that the markup shows and those that are hidden. -/
theorem countKind_pages (depth : Nat) (ns : List Node) :
    countKind Block.page.spelling (preorderAll depth ns) =
      sizeAll (documentsAll ns) + hiddenAll ns := by
  cases ns with
  | nil => rfl
  | cons n ns =>
    rw [preorderAll, countKind_append, countKind_page depth n, countKind_pages depth ns, documentsAll,
      sizeAll_append, hiddenAll]
    omega

end

end Node

/-- What is told about `n` pages. -/
def pageWarning (n : Nat) : String :=
  toString n ++ " page blocks found; their markup documents are concatenated"

theorem pageWarning_injective {m n : Nat} (h : pageWarning m = pageWarning n) : m = n := by
  have hlist := congrArg String.toList h
  simp only [pageWarning, String.toList_append, List.append_cancel_right_eq, Nat.toString_eq_repr,
    Nat.toList_repr] at hlist
  calc
    m = Nat.ofDigitChars 10 (Nat.toDigits 10 m) 0 := Nat.ofDigitChars_ten_toDigits.symm
    _ = Nat.ofDigitChars 10 (Nat.toDigits 10 n) 0 := by rw [hlist]
    _ = n := Nat.ofDigitChars_ten_toDigits

theorem pageWarning_ne {n : Nat} {text : String}
    (h : ¬ " page blocks found; their markup documents are concatenated".toList <:+ text.toList) :
    pageWarning n ≠ text := by
  rintro rfl
  exact h ⟨(toString n).toList, by rw [pageWarning, String.toList_append]⟩

/-- No other warning reads like one about pages. -/
theorem pageWarning_mem_warnings {source : String} {options : Options} {n : Nat} :
    pageWarning n ∈ (compile source options).warnings ↔
      1 < n ∧ n = (Program.parseSource source).stats.count Block.page.spelling := by
  have hminify : pageWarning n ≠ "minification is not supported; output is not minified" :=
    pageWarning_ne (by decide)
  have hmap : pageWarning n ≠ "source maps are not supported; no map was generated" :=
    pageWarning_ne (by decide)
  have hskipped : pageWarning n ≠
      "blocks nested deeper than " ++ toString maxDepth ++ " levels were skipped" :=
    pageWarning_ne (by decide)
  have hpages (pages : Nat) : (1 < pages ∧ pageWarning n =
      toString pages ++ " page blocks found; their markup documents are concatenated") ↔
      1 < n ∧ n = pages := by
    constructor
    · rintro ⟨hmany, htext⟩
      obtain rfl := pageWarning_injective htext
      exact ⟨hmany, rfl⟩
    · rintro ⟨hmany, rfl⟩
      exact ⟨hmany, rfl⟩
  simp only [compile, warningsFor, List.mem_append, List.mem_ite_nil_right, List.mem_singleton,
    hminify, hmap, hskipped, hpages, and_false, false_or, or_false]
  rfl

/-- How many pages are opened in writing a document. -/
def Program.pagesWritten (p : Program) : Nat := (({} : Writer).writeAll p.statements).pages

theorem Program.pagesWritten_eq (p : Program) :
    p.pagesWritten = PageDocument.sizeAll (Node.documentsAll p.statements) := by
  rw [pagesWritten, Node.pages_writeAll]
  exact Nat.zero_add _

/-- The warning counts all pages, the markup consists of those that are written, and the two agree on
several pages just if none is hidden below something else than a page. -/
theorem pageWarning_counts_hidden (source : String) (options : Options) :
    (∀ n, pageWarning n ∈ (compile source options).warnings ↔
      1 < n ∧ n = countKind Block.page.spelling (Program.parseSource source).nodes) ∧
    (compile source options).output.markup =
      PageDocument.renderAll (Node.documentsAll (Program.parseSource source).statements) ∧
    (Program.parseSource source).pagesWritten =
      PageDocument.sizeAll (Node.documentsAll (Program.parseSource source).statements) ∧
    countKind Block.page.spelling (Program.parseSource source).nodes =
      (Program.parseSource source).pagesWritten +
        Node.hiddenAll (Program.parseSource source).statements ∧
    ((∀ n, pageWarning n ∈ (compile source options).warnings ↔
        1 < n ∧ n = (Program.parseSource source).pagesWritten) ↔
      Node.hiddenAll (Program.parseSource source).statements = 0 ∨
        countKind Block.page.spelling (Program.parseSource source).nodes ≤ 1) := by
  have hwarned (n : Nat) : pageWarning n ∈ (compile source options).warnings ↔
      1 < n ∧ n = countKind Block.page.spelling (Program.parseSource source).nodes := by
    rw [pageWarning_mem_warnings, Program.count_stats]
  have hmarkup : (compile source options).output.markup =
      PageDocument.renderAll (Node.documentsAll (Program.parseSource source).statements) :=
    Node.markup_ofNodes _
  have hwritten := Program.pagesWritten_eq (Program.parseSource source)
  have hpages : countKind Block.page.spelling (Program.parseSource source).nodes =
      (Program.parseSource source).pagesWritten +
        Node.hiddenAll (Program.parseSource source).statements := by
    rw [hwritten]
    exact Node.countKind_pages 1 _
  refine ⟨hwarned, hmarkup, hwritten, hpages, fun h => ?_, fun h n => ?_⟩
  · -- The number of all pages tells the two sides apart, unless it is too small for a warning.
    have hall := h (countKind Block.page.spelling (Program.parseSource source).nodes)
    rw [hwarned] at hall
    omega
  · rw [hwarned]
    omega

/-- Two pages in a component are told of, and there is no markup. -/
theorem pageWarning_without_markup :
    pageWarning 2 ∈ (compile "component C \x7b page A \x7b \x7d page B \x7b \x7d \x7d" {}).warnings ∧
      (compile "component C \x7b page A \x7b \x7d page B \x7b \x7d \x7d" {}).output.markup = "" ∧
      (Program.parseSource
        "component C \x7b page A \x7b \x7d page B \x7b \x7d \x7d").pagesWritten = 0 := by
  decide +kernel

end Folio
