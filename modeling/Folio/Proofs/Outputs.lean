import Folio.Output
import Folio.Proofs.Statements

/-! The generated texts of nodes, put one after the other, and the nodes that add nothing to them. -/

namespace Folio.Output

variable {a b : Output} {n : Node} {ns : List Node}

theorem append_mk (a b : Output) :
    a ++ b = ⟨a.markup ++ b.markup, a.style ++ b.style, a.script ++ b.script⟩ := rfl

theorem append_assoc (a b c : Output) : a ++ b ++ c = a ++ (b ++ c) := by
  simp [append_mk, String.append_assoc]

theorem nil_append (a : Output) : {} ++ a = a := by simp [append_mk]

theorem append_nil (a : Output) : a ++ {} = a := by simp [append_mk]

theorem append_eq_left : a ++ b = a ↔ b = {} := by
  obtain ⟨m, st, sc⟩ := a
  obtain ⟨m', st', sc'⟩ := b
  simp [append_mk]

theorem append_eq_nil : a ++ b = {} ↔ a = {} ∧ b = {} := by
  obtain ⟨m, st, sc⟩ := a
  obtain ⟨m', st', sc'⟩ := b
  simp only [append_mk, mk.injEq, String.append_eq_empty_iff]
  grind

theorem ofNodesAfter_eq (done : Output) (ns : List Node) :
    ofNodesAfter done ns = done ++ ofNodes ns := by
  unfold ofNodes
  induction ns generalizing done with
  | nil => rw [ofNodesAfter, ofNodesAfter, append_nil]
  | cons n ns ih =>
    rw [ofNodesAfter, ofNodesAfter, ih, ih ({} ++ ofNode n), nil_append, append_assoc]

theorem ofNodes_nil : ofNodes [] = {} := by rw [ofNodes, ofNodesAfter]

theorem ofNodes_cons : ofNodes (n :: ns) = ofNode n ++ ofNodes ns := by
  rw [ofNodes, ofNodesAfter, ofNodesAfter_eq, nil_append]

theorem ofNodes_eq_nil : ofNodes ns = {} ↔ ∀ n ∈ ns, ofNode n = {} := by
  induction ns with
  | nil => simp [ofNodes_nil]
  | cons n ns ih => rw [ofNodes_cons, append_eq_nil, ih, List.forall_mem_cons]

theorem append_ne_empty {s t : String} (h : s ≠ "") : s ++ t ≠ "" :=
  fun he => h (String.append_eq_empty_iff.mp he).1

/-- Among the constructs, only a route adds nothing. The others start one of the texts with a fixed
piece. -/
theorem construct_eq_nil {header : Header} {name : String} {attributes : Attributes}
    {content : Output} :
    construct header name attributes content = {} ↔ header.keyword = .route := by
  rcases header with (_ | _ | _ | _ | _ | _ | _ | _ | _) | _ | _ | _ | _ | _
  case route => exact iff_of_true rfl rfl
  all_goals refine iff_of_false (fun h => ?_) nofun
  case plain.page =>
    refine absurd (congrArg markup h) ?_
    repeat refine append_ne_empty ?_
    decide
  case plain.style | plain.animation | component =>
    refine absurd (congrArg style h) ?_
    repeat refine append_ne_empty ?_
    decide
  case plain.config => exact absurd (congrArg script h) (show Snippet.config ≠ "" by decide)
  all_goals
    refine absurd (congrArg script h) ?_
    repeat refine append_ne_empty ?_
    decide

theorem keyword_eq_route {header : Header} :
    header.keyword = .route ↔ header.keyword.spelling = Keyword.route.spelling := by
  rcases header with (_ | _ | _ | _ | _ | _ | _ | _ | _) | _ | _ | _ | _ | _ <;>
    simp [Header.keyword, Keyword.spelling, Block.spelling]

/-- Among the nodes that documents are parsed to, only routes add nothing. -/
theorem ofNode_eq_nil (h : n.IsStatement) : ofNode n = {} ↔ n.kind = Keyword.route.spelling := by
  cases n with
  | construct header name attributes children location =>
    rw [ofNode, construct_eq_nil, keyword_eq_route, Node.kind]
  | imports specifiers source location =>
    refine iff_of_false (fun he => ?_) (by simp [Node.kind, Keyword.spelling])
    refine absurd (congrArg script he) ?_
    change Snippet.imports specifiers source ≠ ""
    unfold Snippet.imports
    split <;> repeat refine append_ne_empty ?_
    all_goals decide
  | exports specifiers source isDefault location =>
    refine iff_of_false (fun he => ?_) (by simp [Node.kind, Keyword.spelling])
    refine absurd (congrArg script he) ?_
    repeat refine append_ne_empty ?_
    decide
  | element | text | expression => cases h

end Folio.Output
