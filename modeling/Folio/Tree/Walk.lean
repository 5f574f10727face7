import Folio.Tree

/-! Walks over syntax trees, parents before their children and siblings in the order of the text. -/

namespace Folio

namespace Node

variable {σ : Type}

mutual

/-- Calls `visit` on a node and, unless it is pruned, on all nodes below it. The depth of a node's
children is one more than its own. -/
def walk (isPruned : Node → Bool) (visit : σ → Nat → Node → σ) (depth : Nat) (s : σ) : Node → σ
  | construct header name attributes children location =>
    let node := construct header name attributes children location
    let s := visit s depth node
    if isPruned node then s else walkAll isPruned visit (depth + 1) s children
  | element tag attributes children selfClosing location =>
    let node := element tag attributes children selfClosing location
    let s := visit s depth node
    if isPruned node then s else walkAll isPruned visit (depth + 1) s children
  | imports specifiers source location => visit s depth (imports specifiers source location)
  | exports specifiers source isDefault location =>
    visit s depth (exports specifiers source isDefault location)
  | text value location => visit s depth (text value location)
  | expression code location => visit s depth (expression code location)

/-- Walks over siblings, one after the other. -/
def walkAll (isPruned : Node → Bool) (visit : σ → Nat → Node → σ) (depth : Nat) (s : σ) :
    List Node → σ
  | [] => s
  | n :: ns => walkAll isPruned visit depth (walk isPruned visit depth s n) ns

end

mutual

/-- A node and all nodes below it, each with its depth. -/
def preorder (depth : Nat) : Node → List (Nat × Node)
  | construct header name attributes children location =>
    (depth, construct header name attributes children location) ::
      preorderAll (depth + 1) children
  | element tag attributes children selfClosing location =>
    (depth, element tag attributes children selfClosing location) ::
      preorderAll (depth + 1) children
  | imports specifiers source location => [(depth, imports specifiers source location)]
  | exports specifiers source isDefault location =>
    [(depth, exports specifiers source isDefault location)]
  | text value location => [(depth, text value location)]
  | expression code location => [(depth, expression code location)]

/-- Siblings and all nodes below them, each with its depth. -/
def preorderAll (depth : Nat) : List Node → List (Nat × Node)
  | [] => []
  | n :: ns => preorder depth n ++ preorderAll depth ns

end

end Node

/-- The nodes of a document that a walk comes to, each with its depth, if it does not go below the
pruned ones. Statements have depth one. -/
def Program.visits (p : Program) (isPruned : Node → Bool) : List (Nat × Node) :=
  (Node.walkAll isPruned (fun seen depth n => (depth, n) :: seen) 1 [] p.statements).reverse

/-- All nodes of a document, each with its depth. -/
def Program.nodes (p : Program) : List (Nat × Node) :=
  Node.preorderAll 1 p.statements

/-- How often each kind of node occurs, and how deep nodes are nested. -/
structure Stats where
  counts : SortedMap String Nat := .empty
  maxDepth : Nat := 0
  /-- How many of the nodes that are walked over are open. -/
  depth : Nat := 0

namespace Stats

/-- How many nodes of a kind there are. -/
def count (s : Stats) (kind : String) : Nat := (s.counts.get? kind).getD 0

/-- How many nodes there are. -/
def total (s : Stats) : Nat := s.counts.entries.foldr (fun e n => e.2 + n) 0

/-- Counts a node, and opens it. -/
def enter (s : Stats) (kind : String) : Stats :=
  { counts := s.counts.insert kind (s.count kind + 1)
    maxDepth := max s.maxDepth (s.depth + 1)
    depth := s.depth + 1 }

/-- Closes the node that was opened last. -/
def leave (s : Stats) : Stats := { s with depth := s.depth - 1 }

mutual

/-- Counts a node and all nodes below it. -/
def add (s : Stats) : Node → Stats
  | .construct header name attributes children location =>
    let kind := (Node.construct header name attributes children location).kind
    ((s.enter kind).addAll children).leave
  | .element tag attributes children selfClosing location =>
    let kind := (Node.element tag attributes children selfClosing location).kind
    ((s.enter kind).addAll children).leave
  | .imports specifiers source location =>
    (s.enter (Node.imports specifiers source location).kind).leave
  | .exports specifiers source isDefault location =>
    (s.enter (Node.exports specifiers source isDefault location).kind).leave
  | .text value location => (s.enter (Node.text value location).kind).leave
  | .expression code location => (s.enter (Node.expression code location).kind).leave

/-- Counts siblings and all nodes below them. -/
def addAll (s : Stats) : List Node → Stats
  | [] => s
  | n :: ns => (s.add n).addAll ns

end

end Stats

/-- The statistics of a document. -/
def Program.stats (p : Program) : Stats := ({} : Stats).addAll p.statements

end Folio
