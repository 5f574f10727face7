import Folio.Output.Snippet
import Folio.Tree

/-! The generated texts of a document: markup, style and script. Each node adds to them on its own, so
that the output of a list of nodes is the outputs of the nodes, one after the other. -/

namespace Folio

/-- The three generated texts. -/
structure Output where
  markup : String := ""
  style : String := ""
  script : String := ""
  deriving DecidableEq, Repr

namespace Output

instance : Append Output where
  append a b := ⟨a.markup ++ b.markup, a.style ++ b.style, a.script ++ b.script⟩

/-- A page with the given content. -/
def page (title : Option String) (content : Output) : Output :=
  { content with markup := Snippet.pageStart title ++ content.markup ++ Snippet.pageEnd }

/-- What a construct adds. Only a page shows the content of its body. -/
def construct (header : Header) (name : String) (attributes : Attributes) (content : Output) :
    Output :=
  match header with
  | .plain .page => page (attributes.get? "title") content
  | .plain .style => { style := Snippet.style name }
  | .plain .state => { script := Snippet.state name }
  | .plain .api => { script := Snippet.api name }
  | .plain .router => { script := Snippet.router }
  | .plain .layout => { script := Snippet.layout name }
  | .plain .animation => { style := Snippet.animation name }
  | .plain .plugin => { script := Snippet.plugin name }
  | .plain .config => { script := Snippet.config }
  | .component _ =>
    { style := Snippet.componentStyle name, script := Snippet.componentScript name }
  | .event target => { script := Snippet.event name target }
  | .route _ _ => {}
  | .type _ => { script := Snippet.type name }
  | .hook _ => { script := Snippet.hook name }

mutual

/-- What a node adds to the generated texts. -/
def ofNode : Node → Output
  | .construct header name attributes children _ =>
    construct header name attributes (ofNodesAfter {} children)
  | .imports specifiers source _ => { script := Snippet.imports specifiers source }
  | .exports specifiers source isDefault _ => { script := Snippet.exports specifiers source isDefault }
  | .element .. | .text .. | .expression .. => {}

/-- The texts `done` and what nodes add to them. -/
def ofNodesAfter (done : Output) : List Node → Output
  | [] => done
  | n :: ns => ofNodesAfter (done ++ ofNode n) ns

end

/-- The generated texts of a list of nodes. -/
def ofNodes (ns : List Node) : Output := ofNodesAfter {} ns

end Output

/-- The generated texts of a document. -/
def Program.emit (p : Program) : Output := Output.ofNodes p.statements

end Folio
