import Folio.Proofs.Visible

/-! Writing the texts of a document as one goes along it. Three texts that were begun are handed from
node to node, and each node only adds to them, the same whatever is there already. A page opens its
document before its body and closes it after, so its body is written into the same texts. -/

namespace Folio

/-- The texts that are written to, and how many pages were opened. -/
structure Writer where
  texts : Output := {}
  pages : Nat := 0

namespace Writer

def markup (w : Writer) (text : String) : Writer :=
  { w with texts := { w.texts with markup := w.texts.markup ++ text } }

def style (w : Writer) (text : String) : Writer :=
  { w with texts := { w.texts with style := w.texts.style ++ text } }

def script (w : Writer) (text : String) : Writer :=
  { w with texts := { w.texts with script := w.texts.script ++ text } }

/-- Begins the document of a page. -/
def openPage (w : Writer) (title : Option String) : Writer :=
  { w with pages := w.pages + 1 }.markup (Snippet.pageStart title)

mutual

/-- Writes a node. -/
def write (w : Writer) : Node → Writer
  | .construct header name attributes children _ =>
    match header with
    | .plain .page =>
      ((w.openPage (attributes.get? "title")).writeAll children).markup Snippet.pageEnd
    | .plain .style => w.style (Snippet.style name)
    | .plain .state => w.script (Snippet.state name)
    | .plain .api => w.script (Snippet.api name)
    | .plain .router => w.script Snippet.router
    | .plain .layout => w.script (Snippet.layout name)
    | .plain .animation => w.style (Snippet.animation name)
    | .plain .plugin => w.script (Snippet.plugin name)
    | .plain .config => w.script Snippet.config
    | .component _ =>
      (w.style (Snippet.componentStyle name)).script (Snippet.componentScript name)
    | .event target => w.script (Snippet.event name target)
    | .route _ _ => w
    | .type _ => w.script (Snippet.type name)
    | .hook _ => w.script (Snippet.hook name)
  | .imports specifiers source _ => w.script (Snippet.imports specifiers source)
  | .exports specifiers source isDefault _ => w.script (Snippet.exports specifiers source isDefault)
  | .element .. | .text .. | .expression .. => w

/-- Writes nodes, one after the other. -/
def writeAll (w : Writer) : List Node → Writer
  | [] => w
  | n :: ns => (w.write n).writeAll ns

end

theorem texts_markup (w : Writer) (text : String) :
    (w.markup text).texts = w.texts ++ { markup := text } := by
  simp [markup, Output.append_mk]

theorem texts_style (w : Writer) (text : String) :
    (w.style text).texts = w.texts ++ { style := text } := by
  simp [style, Output.append_mk]

theorem texts_script (w : Writer) (text : String) :
    (w.script text).texts = w.texts ++ { script := text } := by
  simp [script, Output.append_mk]

theorem texts_openPage (w : Writer) (title : Option String) :
    (w.openPage title).texts = w.texts ++ { markup := Snippet.pageStart title } :=
  texts_markup _ _

/-- A page is its start, its content and its end, put one after the other. -/
theorem page_eq (title : Option String) (content : Output) :
    Output.page title content =
      { markup := Snippet.pageStart title } ++ content ++ { markup := Snippet.pageEnd } := by
  simp [Output.page, Output.append_mk]

mutual

theorem texts_write (w : Writer) (n : Node) : (w.write n).texts = w.texts ++ Output.ofNode n := by
  cases n with
  | construct header name attributes children location =>
    have hbody (w : Writer) := texts_writeAll w children
    rw [Output.ofNode]
    cases header with
    | plain block =>
      cases block with
      | page =>
        -- The body is written to what the page has begun, and only then is the page ended.
        rw [write, texts_markup, hbody, texts_openPage, Output.construct, page_eq]
        simp only [Output.append_assoc]
        rfl
      | style | animation => exact texts_style w _
      | state | api | router | layout | plugin | config => exact texts_script w _
    | component =>
      rw [write, texts_script, texts_style, Output.append_assoc]
      simp [Output.construct, Output.append_mk]
    | event | type | hook => exact texts_script w _
    | route => exact (Output.append_nil _).symm
  | imports | exports => exact texts_script w _
  | element | text | expression => exact (Output.append_nil _).symm

/-- What nodes add does not depend on the texts that they are written to. -/
theorem texts_writeAll (w : Writer) (ns : List Node) :
    (w.writeAll ns).texts = w.texts ++ Output.ofNodes ns := by
  cases ns with
  | nil => rw [writeAll, Output.ofNodes_nil, Output.append_nil]
  | cons n ns =>
    rw [writeAll, texts_writeAll (w.write n) ns, texts_write w n, Output.ofNodes_cons,
      Output.append_assoc]

end

end Writer

namespace Snippet

/-- A page up to its title. -/
def pageHead : String :=
  "<!DOCTYPE html>\n<html lang=\"en\">\n<head>\n" ++
  "  <meta charset=\"UTF-8\">\n" ++
  "  <meta name=\"viewport\" content=\"width=device-width, initial-scale=1.0\">\n"

/-- The line that shows a title. -/
def titleLine (title : String) : String := "  <title>" ++ title ++ "</title>\n"

/-- A page from its title to its content. -/
def pageLinks : String :=
  "  <link rel=\"stylesheet\" href=\"css/theme.css\">\n" ++
  "  <link rel=\"stylesheet\" href=\"css/emadocs.css\">\n" ++
  "  <link rel=\"stylesheet\" href=\"styles.css\">\n" ++
  "</head>\n<body>\n"

theorem pageStart_none : pageStart none = pageHead ++ pageLinks := by
  unfold pageStart pageHead pageLinks
  rw [Option.elim_none, String.append_empty]
  repeat rw [← String.append_assoc]

theorem pageStart_some (title : String) :
    pageStart (some title) = pageHead ++ titleLine title ++ pageLinks := by
  unfold pageStart pageHead titleLine pageLinks
  rw [Option.elim_some]
  repeat rw [← String.append_assoc]

end Snippet

namespace Program

theorem emit_page (name : String) (attributes : Attributes) (children : List Node)
    (location : Location) :
    (⟨[.construct (.plain .page) name attributes children location]⟩ : Program).emit =
      ⟨Snippet.pageStart (attributes.get? "title") ++ (⟨children⟩ : Program).emit.markup ++
          Snippet.pageEnd,
        (⟨children⟩ : Program).emit.style, (⟨children⟩ : Program).emit.script⟩ := by
  rw [emit, Output.ofNodes_singleton, Output.ofNode]
  rfl

/-- The texts of a document are made of those of its parts, and what a part adds does not depend on
what was written before. Around the content of a page there is fixed text, but for its title. -/
theorem emit_compositional :
    (∀ p q : List Node, (⟨p ++ q⟩ : Program).emit =
      ⟨(⟨p⟩ : Program).emit.markup ++ (⟨q⟩ : Program).emit.markup,
        (⟨p⟩ : Program).emit.style ++ (⟨q⟩ : Program).emit.style,
        (⟨p⟩ : Program).emit.script ++ (⟨q⟩ : Program).emit.script⟩) ∧
    (∀ name attributes children location,
      (⟨[.construct (.plain .page) name attributes children location]⟩ : Program).emit =
        ⟨(match attributes.get? "title" with
            | none => Snippet.pageHead ++ Snippet.pageLinks
            | some title => Snippet.pageHead ++ Snippet.titleLine title ++ Snippet.pageLinks) ++
            (⟨children⟩ : Program).emit.markup ++ Snippet.pageEnd,
          (⟨children⟩ : Program).emit.style, (⟨children⟩ : Program).emit.script⟩) ∧
    ∀ (w : Writer) (ns : List Node),
      (w.writeAll ns).texts = w.texts ++ (⟨ns⟩ : Program).emit := by
  refine ⟨fun p q => ?_, fun name attributes children location => ?_, Writer.texts_writeAll⟩
  · rw [emit, Output.ofNodes_append, Output.append_mk]
    rfl
  · rw [emit_page]
    cases attributes.get? "title" with
    | none => rw [Snippet.pageStart_none]
    | some title => rw [Snippet.pageStart_some]

end Program

end Folio
