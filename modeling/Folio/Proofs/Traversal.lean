import Folio.Tree.Walk

/-! Walks over a document. A node has an address: which of the statements leads down to it, then which
child, and so on. A walk comes to the nodes by increasing addresses, once to each one, and leaves out
those below a pruned node. -/

namespace Folio

namespace Node

variable {σ : Type} {isPruned : Node → Bool} {depth i : Nat} {ns : List Node}

theorem sizeOf_children (n : Node) : sizeOf n.children ≤ sizeOf n := by
  cases n <;> simp only [children, construct.sizeOf_spec, element.sizeOf_spec, imports.sizeOf_spec,
    exports.sizeOf_spec, text.sizeOf_spec, expression.sizeOf_spec, List.nil.sizeOf_spec] <;> omega

/-- Going down to the children of the first sibling comes to an end. -/
theorem sizeOf_children_lt (n : Node) (ns : List Node) : sizeOf n.children < sizeOf (n :: ns) := by
  have hchildren := sizeOf_children n
  rw [List.cons.sizeOf_spec]
  omega

/-- What siblings have if the children of the first one and the siblings after it have it, all siblings
have. -/
theorem forest_induction {motive : List Node → Prop} (nil : motive [])
    (cons : ∀ n ns, motive n.children → motive ns → motive (n :: ns)) (ns : List Node) : motive ns :=
  match ns with
  | [] => nil
  | n :: ns => cons n ns (forest_induction nil cons n.children) (forest_induction nil cons ns)
termination_by sizeOf ns
decreasing_by
  · exact sizeOf_children_lt n ns
  · decreasing_tactic

theorem preorder_eq (depth : Nat) (n : Node) :
    n.preorder depth = (depth, n) :: preorderAll (depth + 1) n.children := by
  cases n <;> rfl

end Node

namespace Program

end Program

end Folio
