import Folio.Proofs.Outline
import Folio.Result

/-! The limit of nesting. No document is deeper than it, the parser tells that it met the limit just
if the document would be deeper, and below it the parser does what it does without a limit. -/

namespace Folio

/-- The document that tokens write, with no limit to how deep it is nested. -/
def Program.parseUnlimited (tokens : List Token) : Program :=
  ⟨(Parse.statements none (significant tokens)).statements⟩

namespace Parse
open Token (Kind)
open Heading

variable {n depth : Nat} {log : List (Nat × Token)} {rest : List Token} {nodes : List Node}
  {limited : Bool} {e : Nat × Token} {limit : Option Nat} {t : Token}

theorem tooDeep_eq_true : tooDeep (some n) depth = true ↔ n ≤ depth := by simp [tooDeep]

theorem tooDeep_eq_false : tooDeep (some n) depth = false ↔ depth < n := by simp [tooDeep]

/-! ### Below the limit -/

theorem mem_preorder_leaf {node : Node} {e : Nat × Node} (h : node.children = [])
    (he : e ∈ Node.preorderAll depth (node :: nodes)) :
    e = (depth, node) ∨ e ∈ Node.preorderAll depth nodes := by
  rw [Node.preorderAll, preorder_leaf depth h] at he
  simpa using he

/-- No node is deeper than the limit. -/
theorem Reading.depth_le (h : Reading (some n) depth log rest nodes limited) :
    ∀ e ∈ Node.preorderAll (depth + 1) nodes, e.1 ≤ n := by
  induction h with
  | done => simp [Node.preorderAll]
  | deep _ _ _ ih | skip _ _ _ ih => exact ih
  | leaf hd hs _ ih =>
    intro e he
    rcases mem_preorder_leaf (leaf_node hs).1 he with rfl | he
    · exact tooDeep_eq_false.mp hd
    · exact ih e he
  | block hd _ _ _ _ ihbody ih =>
    intro e he
    simp only [Node.preorderAll, Node.preorder, List.mem_append, List.mem_cons] at he
    rcases he with (rfl | he) | he
    · exact tooDeep_eq_false.mp hd
    · exact ihbody e he
    · exact ih e he

/-- Where no node is deeper than a limit, the limit changes nothing. -/
theorem Reading.capped (h : Reading none depth log rest nodes limited)
    (hle : ∀ e ∈ Node.preorderAll (depth + 1) nodes, e.1 ≤ n) :
    Reading (some n) depth log rest nodes false := by
  induction h with
  | done he => exact .done he
  | deep _ hd => cases hd
  | skip he ho _ ih => exact .skip he ho (ih hle)
  | leaf _ hs _ ih =>
    rw [Node.preorderAll, preorder_leaf _ (leaf_node hs).1] at hle
    obtain ⟨hnode, hmore⟩ := List.forall_mem_append.mp hle
    have hd := List.forall_mem_singleton.mp hnode
    exact .leaf (tooDeep_eq_false.mpr hd) hs (ih hmore)
  | block _ hs _ hc _ ihbody ih =>
    rw [Node.preorderAll, Node.preorder] at hle
    obtain ⟨hnode, hmore⟩ := List.forall_mem_append.mp hle
    obtain ⟨hd, hchildren⟩ := List.forall_mem_cons.mp hnode
    exact .block (tooDeep_eq_false.mpr hd) hs (ihbody hchildren) hc (ih hmore)

/-! ### The tokens that are taken out -/

/-- Whether a token opens a construct in a body that is as deep as the limit. -/
def opensDeep (n : Nat) (e : Nat × Token) : Bool := n ≤ e.1 && e.2.kind.opensConstruct

/-- The tokens without those that open a construct too deep. -/
def kept (n : Nat) (log : List (Nat × Token)) : List (Nat × Token) := log.filter (!opensDeep n ·)

theorem opensDeep_shallow (hd : depth < n) : opensDeep n (depth, t) = false := by
  simp [opensDeep, Nat.not_le.mpr hd]

@[simp]
theorem kept_append (log more : List (Nat × Token)) :
    kept n (log ++ more) = kept n log ++ kept n more :=
  List.filter_append ..

theorem kept_atDepth (hd : depth < n) (ts : List Token) :
    kept n (atDepth depth ts) = atDepth depth ts := by
  refine List.filter_eq_self.mpr ?_
  intro e he
  obtain ⟨t, -, rfl⟩ := List.mem_map.mp he
  rw [opensDeep_shallow hd]
  rfl

theorem kept_cons (h : opensDeep n e = false) : kept n (e :: log) = e :: kept n log :=
  List.filter_cons_of_pos (by simp [h])

theorem any_opensDeep_atDepth (hd : depth < n) (ts : List Token) :
    (atDepth depth ts).any (opensDeep n) = false := by
  refine List.any_eq_false.mpr ?_
  intro e he
  obtain ⟨t, -, rfl⟩ := List.mem_map.mp he
  simp [opensDeep_shallow hd]

/-- The parser tells that it met the limit just if it took a token out. -/
theorem Reading.limited_eq (h : Reading (some n) depth log rest nodes limited) :
    limited = log.any (opensDeep n) := by
  induction h with
  | done => rfl
  | deep ho hd _ _ =>
    have hover := tooDeep_eq_true.mp hd
    simp [opensDeep, ho, hover]
  | skip _ ho _ ih => simp [opensDeep, ho, ih]
  | leaf hd _ _ ih =>
    have hd := tooDeep_eq_false.mp hd
    simp [opensDeep_shallow hd, any_opensDeep_atDepth hd, ih]
  | block hd _ _ _ _ ihbody ih =>
    have hd := tooDeep_eq_false.mp hd
    simp [opensDeep_shallow hd, any_opensDeep_atDepth hd, ihbody, ih]

/-- Above the limit, the next token is not taken out. -/
theorem Reading.peek_kept (h : Reading limit depth log rest nodes limited) (hd : depth < n) :
    peek (tokensOf (kept n log) ++ rest) = peek (tokensOf log ++ rest) := by
  cases h
  case done => rfl
  all_goals
    rw [kept_cons (opensDeep_shallow hd)]
    rfl

/-- With the tokens taken out, the same is read without a limit. -/
theorem Reading.uncapped (h : Reading (some n) depth log rest nodes limited) :
    Reading none depth (kept n log) rest nodes false := by
  induction h with
  | done he => exact .done he
  | deep ho hd _ ih =>
    have hover := tooDeep_eq_true.mp hd
    rw [kept, List.filter_cons_of_neg (by simp [opensDeep, ho, hover])]
    exact ih
  | skip he ho _ ih =>
    rw [kept_cons (by simp [opensDeep, ho])]
    exact .skip he ho ih
  | leaf hd hs more ih =>
    have hd := tooDeep_eq_false.mp hd
    rw [kept_cons (opensDeep_shallow hd), kept_append, kept_atDepth hd]
    exact .leaf rfl (hs.congr (more.peek_kept hd)) ih
  | block hd hs _ hc more ihbody ih =>
    have hd := tooDeep_eq_false.mp hd
    have hnext := more.peek_kept hd
    rw [kept_cons (opensDeep_shallow hd)]
    simp only [kept_append, kept_atDepth hd]
    exact .block rfl hs (ihbody.frame (peek_append_congr hnext _)) (hc.congr hnext) ih

/-- No statement is nested deeper than the limit. -/
theorem depth_le_statements (n : Nat) (ts : List Token) :
    ∀ e ∈ Node.preorderAll 1 (statements (some n) ts).statements, e.1 ≤ n := by
  obtain ⟨log, rest, nodes, limited, -, hread, hstatements⟩ := exists_statements (some n) ts
  rw [hstatements]
  exact hread.depth_le

/-- As long as the limit is not met, it changes nothing. -/
theorem statements_unlimited {ts : List Token} (hl : (statements (some n) ts).depthLimited = false) :
    (statements (some n) ts).statements = (statements none ts).statements := by
  obtain ⟨log, rest, nodes, limited, rfl, hread, hstatements⟩ := exists_statements (some n) ts
  rw [hstatements] at hl ⊢
  have hover : log.any (opensDeep n) = false := hread.limited_eq.symm.trans hl
  have hkept : kept n log = log := by
    refine List.filter_eq_self.mpr ?_
    intro e he
    simpa using List.any_eq_false.mp hover e he
  have hfree := hread.uncapped
  rw [hkept] at hfree
  rw [statements_eq_body, hfree.body_eq]

/-- The limit is met just if some statement would be nested deeper. -/
theorem depthLimited_iff {ts : List Token} : (statements (some n) ts).depthLimited = true ↔
    ∃ e ∈ Node.preorderAll 1 (statements none ts).statements, n < e.1 := by
  constructor
  · intro hl
    by_contra hnone
    obtain ⟨log, rest, nodes, limited, rfl, hread, hstatements⟩ := exists_statements none ts
    have hle : ∀ e ∈ Node.preorderAll 1 nodes, e.1 ≤ n := by
      intro e he
      rw [hstatements] at hnone
      exact Nat.not_lt.mp fun hlt => hnone ⟨e, he, hlt⟩
    rw [statements_eq_body, (hread.capped hle).body_eq] at hl
    cases hl
  · rintro ⟨e, he, hlt⟩
    by_contra hl
    rw [Bool.not_eq_true] at hl
    rw [← statements_unlimited hl] at he
    have hle := depth_le_statements n ts e he
    omega

end Parse

namespace Program
open Parse

def depthWarning : String := "blocks nested deeper than 256 levels were skipped"

theorem depthWarning_not_mem (stats : Stats) (options : Options) :
    depthWarning ∉ warningsFor stats options := by
  have hpages (pages : String) :
      depthWarning ≠ pages ++ " page blocks found; their markup documents are concatenated" := by
    intro h
    have hsuffix : " page blocks found; their markup documents are concatenated".toList <:+
        depthWarning.toList := ⟨pages.toList, by rw [h, String.toList_append]⟩
    exact absurd hsuffix (by decide)
  have hminify : depthWarning ≠ "minification is not supported; output is not minified" := by decide
  have hmap : depthWarning ≠ "source maps are not supported; no map was generated" := by decide
  unfold warningsFor
  simp only [List.mem_append, not_or]
  refine ⟨⟨?_, ?_⟩, ?_⟩
  all_goals split <;> simp only [List.mem_singleton, List.not_mem_nil, not_false_eq_true]
  · exact hminify
  · exact hmap
  · exact hpages _

/-- The warning is given just if the parser met the limit. -/
theorem mem_warnings_compile (source : String) (options : Options) :
    depthWarning ∈ (compile source options).warnings ↔
      (Parse.statements maxDepth (significant (Token.scan source))).depthLimited = true := by
  have hother := depthWarning_not_mem (parse (Token.scan source)).stats options
  have htext : "blocks nested deeper than " ++ toString maxDepth ++ " levels were skipped" =
      depthWarning := by decide
  rw [parse] at hother
  simp only [compile, List.mem_append, hother, false_or, htext]
  split <;> simp_all

/-- The limit of nesting is kept, it is told just if something is nested deeper, and as long as
nothing is, the document is the one that is parsed without a limit. -/
theorem parse_within_limit (tokens : List Token) :
    (∀ e ∈ (parse tokens).nodes, e.1 ≤ maxDepth) ∧
      ((Parse.statements maxDepth (significant tokens)).depthLimited = true ↔
        ∃ e ∈ (parseUnlimited tokens).nodes, maxDepth < e.1) ∧
      ((Parse.statements maxDepth (significant tokens)).depthLimited = false →
        parse tokens = parseUnlimited tokens) ∧
      ∀ source options, tokens = Token.scan source →
        (depthWarning ∈ (compile source options).warnings ↔
          ∃ e ∈ (parseUnlimited tokens).nodes, maxDepth < e.1) := by
  refine ⟨depth_le_statements maxDepth _, depthLimited_iff, ?_, ?_⟩
  · intro hl
    rw [parse, statements_unlimited hl, parseUnlimited]
  · rintro source options rfl
    rw [mem_warnings_compile]
    exact depthLimited_iff

/-- A state in a page is well within the limit. -/
theorem parse_within_limit_sample :
    let source := "page Home \x7b state s \x7b \x7d \x7d"
    let tokens := Token.scan source
    (Parse.statements maxDepth (significant tokens)).depthLimited = false ∧
      parse tokens = parseUnlimited tokens ∧
      (depthWarning ∈ (compile source {}).warnings ↔
        ∃ e ∈ (parseUnlimited tokens).nodes, maxDepth < e.1) := by
  intro source tokens
  have hwithin : (Parse.statements maxDepth (significant tokens)).depthLimited = false := by
    decide +kernel
  obtain ⟨-, -, hsame, hwarning⟩ := parse_within_limit tokens
  exact ⟨hwithin, hsame hwithin, hwarning source _ rfl⟩

end Program

end Folio
