import Folio.Proofs.SortedMaps
import Folio.Proofs.Traversal

/-! The statistics of a document count its nodes, wherever they stand, and measure how deep they are
nested. Counting a node with all nodes below it is recording them one by one, each at its depth: the
nodes that are opened on the way are closed again. -/

namespace Folio

variable {kind : String}

/-- How many of some nodes are of a kind. -/
def countKind (kind : String) (entries : List (Nat × Node)) : Nat :=
  entries.countP fun e => e.2.kind = kind

theorem countKind_cons (e : Nat × Node) (es : List (Nat × Node)) :
    countKind kind (e :: es) = (if e.2.kind = kind then 1 else 0) + countKind kind es := by
  rw [countKind, List.countP_cons, Nat.add_comm]
  simp [countKind]

theorem countKind_append (es more : List (Nat × Node)) :
    countKind kind (es ++ more) = countKind kind es + countKind kind more :=
  List.countP_append

/-- How many nodes are of a kind does not depend on where their depth is counted from. -/
theorem countKind_preorderAll (ns : List Node) (depth depth' : Nat) :
    countKind kind (Node.preorderAll depth ns) = countKind kind (Node.preorderAll depth' ns) := by
  induction ns using Node.forest_induction generalizing depth depth' with
  | nil => rfl
  | cons n ns below after =>
    rw [Node.preorderAll, Node.preorderAll, Node.preorder_eq, Node.preorder_eq, countKind_append,
      countKind_append, countKind_cons, countKind_cons, below (depth + 1) (depth' + 1),
      after depth depth']

namespace Node

/-- How deep siblings and the nodes below them are nested. -/
def heights : List Node → Nat
  | [] => 0
  | n :: ns => max (heights n.children + 1) (heights ns)
termination_by ns => sizeOf ns
decreasing_by
  · exact sizeOf_children_lt n ns
  · decreasing_tactic

theorem heights_eq_zero {ns : List Node} : heights ns = 0 ↔ ns = [] := by
  cases ns with
  | nil => simp [heights]
  | cons n ns => simp [heights]

theorem heights_le_one {ns : List Node} : heights ns ≤ 1 ↔ ∀ n ∈ ns, n.children = [] := by
  induction ns with
  | nil => simp [heights]
  | cons n ns ih =>
    have hfirst : heights n.children + 1 ≤ 1 ↔ n.children = [] := by
      rw [← heights_eq_zero]
      omega
    rw [heights, Nat.max_le, hfirst, ih, List.forall_mem_cons]

/-- The deepest one of the nodes has the height of the tree as its depth. -/
theorem foldl_max_preorderAll {deepest depth : Nat} (h : depth ≤ deepest) (ns : List Node) :
    (preorderAll (depth + 1) ns).foldl (fun deepest e => max deepest e.1) deepest =
      max deepest (depth + heights ns) := by
  induction ns using forest_induction generalizing deepest depth with
  | nil =>
    rw [heights, preorderAll, List.foldl_nil]
    omega
  | cons n ns below after =>
    rw [preorderAll, preorder_eq, List.foldl_append, List.foldl_cons, below (by omega),
      after (by omega), heights]
    omega

end Node

namespace Stats

/-- The statistics with one more node at some depth. -/
def record (s : Stats) (e : Nat × Node) : Stats :=
  { s with
    counts := s.counts.insert e.2.kind (s.count e.2.kind + 1)
    maxDepth := max s.maxDepth e.1 }

theorem add_eq (s : Stats) (n : Node) : s.add n = ((s.enter n.kind).addAll n.children).leave := by
  cases n <;> rfl

theorem depth_foldl_record (s : Stats) (es : List (Nat × Node)) :
    (es.foldl record s).depth = s.depth := by
  induction es generalizing s with
  | nil => rfl
  | cons e es ih => exact ih (s.record e)

theorem leave_foldl_record (s : Stats) (es : List (Nat × Node)) :
    (es.foldl record s).leave = es.foldl record s.leave := by
  induction es generalizing s with
  | nil => rfl
  | cons e es ih => exact ih (s.record e)

/-- Counting siblings with all nodes below them is recording these nodes, one after the other. -/
theorem addAll_eq_foldl (s : Stats) (ns : List Node) :
    s.addAll ns = (Node.preorderAll (s.depth + 1) ns).foldl record s := by
  induction ns using Node.forest_induction generalizing s with
  | nil => rfl
  | cons n ns below after =>
    have hn : s.add n = (n.preorder (s.depth + 1)).foldl record s := by
      rw [add_eq, below, leave_foldl_record, Node.preorder_eq]
      rfl
    rw [addAll, after, hn, depth_foldl_record, Node.preorderAll, List.foldl_append]

theorem count_record (s : Stats) (e : Nat × Node) :
    (s.record e).count kind = s.count kind + if e.2.kind = kind then 1 else 0 := by
  simp only [count, record, SortedMap.get?_insert]
  by_cases h : e.2.kind = kind
  · simp [h]
  · simp [h, Ne.symm h]

theorem count_foldl_record (s : Stats) (es : List (Nat × Node)) :
    (es.foldl record s).count kind = s.count kind + countKind kind es := by
  induction es generalizing s with
  | nil => rfl
  | cons e es ih => rw [List.foldl_cons, ih, count_record, countKind_cons, Nat.add_assoc]

theorem total_record (s : Stats) (e : Nat × Node) : (s.record e).total = s.total + 1 := by
  have hsum := SortedMap.sum_insert s.counts e.2.kind (s.count e.2.kind + 1)
  rw [← Nat.add_assoc, Nat.add_right_comm] at hsum
  exact Nat.add_right_cancel hsum

theorem total_foldl_record (s : Stats) (es : List (Nat × Node)) :
    (es.foldl record s).total = s.total + es.length := by
  induction es generalizing s with
  | nil => rfl
  | cons e es ih =>
    rw [List.foldl_cons, ih, total_record, List.length_cons, Nat.add_assoc, Nat.add_comm 1]

theorem maxDepth_foldl_record (s : Stats) (es : List (Nat × Node)) :
    (es.foldl record s).maxDepth = es.foldl (fun deepest e => max deepest e.1) s.maxDepth := by
  induction es generalizing s with
  | nil => rfl
  | cons e es ih => exact ih (s.record e)

/-- Only the kinds of recorded nodes get into the map of the counts. -/
theorem mem_counts_foldl_record (s : Stats) (es : List (Nat × Node)) :
    kind ∈ (es.foldl record s).counts.keys ↔
      kind ∈ s.counts.keys ∨ ∃ e ∈ es, e.2.kind = kind := by
  induction es generalizing s with
  | nil => simp
  | cons e es ih =>
    rw [List.foldl_cons, ih, record, SortedMap.mem_keys_insert]
    simp [or_assoc, or_left_comm, eq_comm]

/-- Closes the node that was opened last, if there is one. -/
def leave? (s : Stats) : Option Stats := if s.depth = 0 then none else some s.leave

/-- Counts siblings and all nodes below them, and fails when it has to close a node while none is
open. -/
def addAll? (s : Stats) : List Node → Option Stats
  | [] => some s
  | n :: ns => do
    let below ← (s.enter n.kind).addAll? n.children
    let closed ← below.leave?
    closed.addAll? ns
termination_by ns => sizeOf ns
decreasing_by
  · exact Node.sizeOf_children_lt n ns
  · decreasing_tactic

/-- No node is closed that was not opened. -/
theorem addAll?_eq_some (s : Stats) (ns : List Node) : s.addAll? ns = some (s.addAll ns) := by
  induction ns using Node.forest_induction generalizing s with
  | nil => rw [addAll?, addAll]
  | cons n ns below after =>
    have hdepth : ((s.enter n.kind).addAll n.children).depth = s.depth + 1 := by
      rw [addAll_eq_foldl, depth_foldl_record]
      rfl
    rw [addAll?, below, Option.bind_eq_bind, Option.bind_some, leave?, if_neg (by omega),
      Option.bind_some, after, addAll, add_eq]

end Stats

namespace Program

/-- The statistics of a document record its nodes. -/
theorem stats_eq_foldl (p : Program) : p.stats = p.nodes.foldl Stats.record {} :=
  Stats.addAll_eq_foldl {} p.statements

theorem count_stats (p : Program) (kind : String) : p.stats.count kind = countKind kind p.nodes := by
  rw [stats_eq_foldl, Stats.count_foldl_record]
  exact Nat.zero_add _

/-- The statistics of a document are exact: how many nodes there are of each kind and in all, how deep
the tree is, and which kinds there are. Nodes are closed as often as they are opened, and none is closed
that is not open. -/
theorem stats_exact (p : Program) :
    (∀ kind, p.stats.count kind = countKind kind p.nodes) ∧
    p.stats.total = p.nodes.length ∧
    p.stats.maxDepth = Node.heights p.statements ∧
    (p.stats.maxDepth = 0 ↔ p.statements = []) ∧
    (p.stats.maxDepth ≤ 1 ↔ ∀ n ∈ p.statements, n.children = []) ∧
    (∀ kind, kind ∈ p.stats.counts.keys ↔ ∃ e ∈ p.nodes, e.2.kind = kind) ∧
    p.stats.depth = 0 ∧ ({} : Stats).addAll? p.statements = some p.stats := by
  have hheight : p.stats.maxDepth = Node.heights p.statements := by
    rw [stats_eq_foldl, Stats.maxDepth_foldl_record, nodes, Node.foldl_max_preorderAll (Nat.le_refl 0)]
    simp
  rw [hheight]
  refine ⟨p.count_stats, ?_, rfl, Node.heights_eq_zero, Node.heights_le_one, fun kind => ?_, ?_,
    Stats.addAll?_eq_some {} p.statements⟩
  · rw [stats_eq_foldl, Stats.total_foldl_record]
    exact Nat.zero_add _
  · rw [stats_eq_foldl, Stats.mem_counts_foldl_record]
    exact or_iff_right (List.not_mem_nil)
  · rw [stats_eq_foldl, Stats.depth_foldl_record]

end Program

end Folio
