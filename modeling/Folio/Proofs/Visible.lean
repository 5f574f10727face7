import Folio.Proofs.Outputs

/-! What the generated texts can tell about a document. The rest of it is erased: nodes that add
nothing, bodies that are not shown, and whatever no text is made from. -/

namespace Folio

/-- Whether a construct is a page, which shows its body and its title. -/
def Header.isPage (header : Header) : Bool := header = .plain .page

/-- A header without type parameters, hook parameters and type definitions. -/
def Header.visible : Header → Header
  | component _ => component []
  | type _ => type none
  | hook _ => hook []
  | plain block => plain block
  | event target => event target
  | route path shown => route path shown

/-- Pages, routers and configurations are not named in any text. -/
def Header.visibleName (header : Header) (name : String) : String :=
  match header with
  | plain .page | plain .router | plain .config => ""
  | _ => name

/-- Only pages have an attribute that is shown. -/
def Header.visibleAttributes (header : Header) (attributes : Attributes) : Attributes :=
  attributes.filter fun key _ => header.isPage && key == "title"

mutual

/-- What is visible of a node, if anything: routes, elements, texts and expressions are not, and
only the bodies of pages are. -/
def Node.visible : Node → List Node
  | construct header name attributes children _ =>
    if header.keyword = .route then []
    else
      [construct header.visible (header.visibleName name) (header.visibleAttributes attributes)
        (if header.isPage then visibleAll children else []) {}]
  | imports specifiers source _ => [imports specifiers source {}]
  | exports specifiers source isDefault _ => [exports specifiers source isDefault {}]
  | element .. | text .. | expression .. => []

/-- What is visible of nodes. -/
def Node.visibleAll : List Node → List Node
  | [] => []
  | n :: ns => visible n ++ visibleAll ns

end

/-- What is visible of a document. -/
def Program.visible (p : Program) : Program := ⟨Node.visibleAll p.statements⟩

theorem Header.get?_visibleAttributes {header : Header} (h : header.isPage = true)
    (attributes : Attributes) :
    (header.visibleAttributes attributes).get? "title" = attributes.get? "title" := by
  obtain ⟨entries, hs⟩ := attributes
  simp only [visibleAttributes, SortedMap.filter, SortedMap.get?, h, Bool.true_and]
  clear hs
  induction entries with
  | nil => rfl
  | cons e entries ih => grind

namespace Output

theorem ofNodes_append (ns more : List Node) :
    ofNodes (ns ++ more) = ofNodes ns ++ ofNodes more := by
  induction ns with
  | nil => rw [ofNodes_nil, nil_append, List.nil_append]
  | cons n ns ih => rw [List.cons_append, ofNodes_cons, ofNodes_cons, ih, append_assoc]

theorem ofNodes_singleton (n : Node) : ofNodes [n] = ofNode n := by
  rw [ofNodes_cons, ofNodes_nil, append_nil]

/-- A construct adds what its visible parts add, if it shows a body just where it is visible. -/
theorem construct_visible (header : Header) (name : String) (attributes : Attributes)
    {content shown : Output} (h : header.isPage = true → shown = content) :
    construct header.visible (header.visibleName name) (header.visibleAttributes attributes) shown =
      construct header name attributes content := by
  cases header with
  | plain block =>
    cases block with
    | page =>
      have hpage : (Header.plain .page).isPage = true := rfl
      simp only [construct, Header.visible, Header.get?_visibleAttributes hpage, h hpage]
    | _ => rfl
  | _ => rfl

mutual

theorem ofNodes_visible (n : Node) : ofNodes n.visible = ofNode n := by
  cases n with
  | construct header name attributes children location =>
    have hbody := ofNodes_visibleAll children
    rw [Node.visible, ofNode]
    split
    · next hroute => rw [ofNodes_nil, construct_eq_nil.mpr hroute]
    · rw [ofNodes_singleton, ofNode]
      apply construct_visible
      intro hpage
      rw [if_pos hpage]
      exact hbody
  | imports | exports => rw [Node.visible, ofNodes_singleton, ofNode, ofNode]
  | element | text | expression => rw [Node.visible, ofNodes_nil, ofNode]

theorem ofNodes_visibleAll (ns : List Node) : ofNodes (Node.visibleAll ns) = ofNodes ns := by
  cases ns with
  | nil => rw [Node.visibleAll]
  | cons n ns =>
    rw [Node.visibleAll, ofNodes_append, ofNodes_visible n, ofNodes_visibleAll ns, ofNodes_cons]

end

end Output

theorem Program.emit_visible (p : Program) : p.visible.emit = p.emit :=
  Output.ofNodes_visibleAll p.statements

/-- Documents that look the same have the same generated texts. -/
theorem Program.emit_eq_of_visible_eq {p q : Program} (h : p.visible = q.visible) :
    p.emit = q.emit := by
  rw [← emit_visible p, h, emit_visible q]

/-- A document with much that is not visible in it. -/
def Program.crowded : Program :=
  ⟨[.construct (.plain .page) "Home" (.ofList [("title", "T"), ("lang", "en")])
      [.construct (.component ["A"]) "Card" (.ofList [("id", "c")]) [.text "hidden" ⟨3, 1⟩] ⟨2, 3⟩,
        .construct (.route (some "/") none) "" .empty [] ⟨4, 1⟩] ⟨1, 1⟩,
    .element "div" .empty [.construct (.plain .page) "" .empty [] ⟨5, 6⟩] false ⟨5, 1⟩]⟩

/-- A document with little more than what is visible of the other one. -/
def Program.bare : Program :=
  ⟨[.construct (.plain .page) "" (.ofList [("title", "T")])
      [.construct (.component []) "Card" .empty [] {}] {}]⟩

theorem Program.emit_eq_of_visible_eq_sample :
    crowded.visible = bare.visible ∧ crowded.emit = bare.emit := by
  have h : crowded.visible = bare.visible := rfl
  exact ⟨h, emit_eq_of_visible_eq h⟩

end Folio
