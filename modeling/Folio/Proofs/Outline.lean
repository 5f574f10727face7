import Folio.Proofs.Places
import Folio.Proofs.Readings
import Folio.Proofs.Traversal

/-! The outline of a document: the kinds and places of its nodes, parents before their children. Each
node stands for a keyword of the tokens, in their order, and without lists of names and types each
keyword stands for a node. -/

namespace Folio

/-- The kind and place of a construct that a token opens. -/
def Token.opener? (t : Token) : Option (String × Location) :=
  match t.kind with
  | .keyword k => if k.opensConstruct then some (k.spelling, t.location) else none
  | _ => none

/-- The kinds and places of the constructs that tokens open. -/
def openers (ts : List Token) : List (String × Location) := ts.filterMap Token.opener?

/-- The kinds and places of nodes. -/
def outline (entries : List (Nat × Node)) : List (String × Location) :=
  entries.map fun e => (e.2.kind, e.2.location)

namespace Parse
open Token (Kind)
open Heading

variable {t : Token} {ts after taken heading : List Token} {node : Node} {header : Header}
  {name : String} {attributes : Attributes}

theorem opener?_of_keyword {k : Keyword} (hk : t.kind = .keyword k) (ho : k.opensConstruct = true) :
    t.opener? = some (k.spelling, t.location) := by
  simp [Token.opener?, hk, ho]

theorem opener?_none (ho : t.kind.opensConstruct = false) : t.opener? = none := by
  cases hk : t.kind <;> simp_all [Token.opener?, Kind.opensConstruct]

theorem location_opener? {o : String × Location} (h : t.opener? = some o) : o.2 = t.location := by
  unfold Token.opener? at h
  split at h
  · split at h <;> cases h
    rfl
  · cases h

/-- A node in the place of a keyword, with nothing below it. -/
theorem opening_whole (h : opening t ts = some (.whole node, after)) :
    node.children = [] ∧ t.opener? = some (node.kind, node.location) := by
  unfold opening at h
  split at h
  · next k hk =>
    cases k with
    | type =>
      simp only [Heading.opening, type_eq, typeEnd, Option.some.injEq] at h
      split at h
      · cases h
        exact ⟨rfl, opener?_of_keyword hk rfl⟩
      · cases h
    | imports | exports =>
      cases h
      exact ⟨rfl, opener?_of_keyword hk rfl⟩
    | _ => cases h
  · cases h

theorem opening_construct (h : opening t ts = some (.construct header name attributes, after)) :
    t.opener? = some (header.keyword.spelling, t.location) := by
  unfold opening at h
  split at h
  · next k hk =>
    cases k with
    | type =>
      simp only [Heading.opening, type_eq, typeEnd, Option.some.injEq] at h
      split at h
      · cases h
      · cases h
        exact opener?_of_keyword hk rfl
    | imports | exports | source | renamed | reserved => cases h
    | _ =>
      cases h
      exact opener?_of_keyword hk rfl
  · cases h

theorem leaf_node (h : LeafHeading t heading node after) :
    node.children = [] ∧ t.opener? = some (node.kind, node.location) := by
  obtain ⟨_, ⟨⟩, ho⟩ | ⟨header, name, attributes, rest, ⟨⟩, -, -, ho⟩ | ⟨_, _, _, _, ⟨⟩, _⟩ :=
    start_cases (h.read after rfl)
  · exact opening_whole ho
  · exact ⟨rfl, opening_construct ho⟩

theorem block_node (h : BlockHeading t heading header name attributes) :
    t.opener? = some (header.keyword.spelling, t.location) := by
  obtain ⟨_, ⟨⟩, _⟩ | ⟨_, _, _, _, ⟨⟩, _⟩ | ⟨_, _, _, brace, ⟨⟩, hb, ho⟩ := start_cases (h.read [])
  exact opening_construct ho

theorem preorder_leaf (depth : Nat) (h : node.children = []) :
    Node.preorder depth node = [(depth, node)] := by
  rw [Node.preorder_eq, h, Node.preorderAll]

/-- Whether tokens of this kind can hide the keyword of a construct: those that open a list of names,
and the keyword of a type. -/
def hides (kind : Kind) : Bool := opensList kind || kind = .keyword .type

theorem openers_taken {o : String × Location} (h : TakenBy t taken) (ho : t.opener? = some o)
    (ht : hides t.kind = false) (hfree : ∀ u ∈ taken, hides u.kind = false) : openers taken = [] := by
  cases hk : t.kind with
  | keyword k =>
    rcases (h k hk).openers with rfl | ⟨u, hu, hl⟩ | hplain
    · simp [hides, hk] at ht
    · have hu := hfree u hu
      simp [hides, hl] at hu
    · rw [openers, List.filterMap_eq_nil_iff]
      intro u hu
      exact opener?_none (hplain u hu)
  | _ => simp [Token.opener?, hk] at ho

variable {limit : Option Nat} {depth : Nat} {log : List (Nat × Token)} {rest : List Token}
  {nodes : List Node} {limited : Bool}

/-- What holds of each node by the tokens of its heading holds at every depth. -/
theorem Reading.forall_nodes {S : Token → Prop} {P : Node → Prop}
    (hleaf : ∀ {t heading node after}, LeafHeading t heading node after →
      (∀ u ∈ heading ++ after, S u) → P node)
    (hblock : ∀ {t heading header name attributes}, BlockHeading t heading header name attributes →
      (∀ u ∈ heading, S u) →
        ∀ children location, P (.construct header name attributes children location))
    (h : Reading limit depth log rest nodes limited) (hts : ∀ t ∈ tokensOf log ++ rest, S t)
    (level : Nat) : ∀ e ∈ Node.preorderAll level nodes, P e.2 := by
  induction h generalizing level with
  | done => simp [Node.preorderAll]
  | deep _ _ _ ih | skip _ _ _ ih => exact ih (fun u hu => hts u (.tail _ hu)) level
  | leaf _ hs _ ih =>
    rw [tokensOf_leaf, List.forall_mem_cons] at hts
    rw [Node.preorderAll, preorder_leaf level (leaf_node hs).1]
    refine List.forall_mem_append.mpr ⟨?_, ih (fun u hu => ?_) level⟩
    · simpa using hleaf hs hts.2
    · exact hts.2 u (List.mem_append_right _ hu)
  | block _ hs _ _ _ ihbody ih =>
    rw [tokensOf_block, List.forall_mem_cons, List.forall_mem_append] at hts
    obtain ⟨-, hheading, hrest⟩ := hts
    rw [Node.preorderAll, Node.preorder, List.forall_mem_append, List.forall_mem_cons]
    refine ⟨⟨hblock hs hheading _ _, ihbody hrest (level + 1)⟩, ih (fun u hu => hrest u ?_) level⟩
    exact List.mem_append_right _ (List.mem_append_right _ hu)

@[simp]
theorem openers_append (ts more : List Token) : openers (ts ++ more) = openers ts ++ openers more :=
  List.filterMap_append

theorem openers_opens {o : String × Location} (h : t.opener? = some o) :
    openers (t :: ts) = o :: openers ts :=
  List.filterMap_cons_some h

theorem openers_other (h : t.opener? = none) : openers (t :: ts) = openers ts :=
  List.filterMap_cons_none h

theorem outline_leaf (h : node.children = []) (nodes : List Node) :
    outline (Node.preorderAll depth (node :: nodes)) =
      (node.kind, node.location) :: outline (Node.preorderAll depth nodes) := by
  rw [Node.preorderAll, preorder_leaf depth h]
  rfl

theorem outline_construct (children nodes : List Node) (location : Location) :
    outline (Node.preorderAll depth (.construct header name attributes children location :: nodes)) =
      (header.keyword.spelling, location) ::
        (outline (Node.preorderAll (depth + 1) children) ++
          outline (Node.preorderAll depth nodes)) := by
  rw [Node.preorderAll, Node.preorder]
  simp [outline, Node.kind, Node.location]

/-- Each node stands for a keyword, in the order of the tokens. -/
theorem Reading.outline_sublist (h : Reading limit depth log rest nodes limited) :
    (outline (Node.preorderAll (depth + 1) nodes)).Sublist (openers (tokensOf log)) := by
  induction h with
  | done => exact List.Sublist.refl []
  | deep ho _ _ ih =>
    refine ih.trans ?_
    exact (List.sublist_cons_self _ _).filterMap _
  | skip _ ho _ ih =>
    rw [tokensOf_cons, openers_other (opener?_none ho)]
    exact ih
  | leaf _ hs _ ih =>
    obtain ⟨hchildren, hopener⟩ := leaf_node hs
    rw [outline_leaf hchildren, tokensOf_cons, openers_opens hopener]
    refine List.Sublist.cons_cons _ (ih.trans ?_)
    simp
  | block _ hs _ _ _ ihbody ih =>
    rw [outline_construct, tokensOf_cons, openers_opens (block_node hs)]
    refine List.Sublist.cons_cons _ ?_
    simp only [tokensOf_append, tokensOf_atDepth, openers_append]
    exact (ihbody.append (ih.trans (List.sublist_append_right _ _))).trans
      (List.sublist_append_right _ _)

/-- Where nothing hides a keyword and none is nested too deep, each keyword stands for a node. -/
theorem Reading.outline_eq (h : Reading limit depth log rest nodes limited)
    (hfree : ∀ u ∈ tokensOf log, hides u.kind = false) (hl : limited = false) :
    outline (Node.preorderAll (depth + 1) nodes) = openers (tokensOf log) := by
  induction h with
  | done => rfl
  | deep => cases hl
  | skip _ ho _ ih =>
    rw [tokensOf_cons, openers_other (opener?_none ho)]
    exact ih (fun u hu => hfree u (List.mem_cons_of_mem _ hu)) hl
  | leaf _ hs _ ih =>
    obtain ⟨hchildren, hopener⟩ := leaf_node hs
    simp only [tokensOf_cons, tokensOf_append, tokensOf_atDepth, List.forall_mem_cons,
      List.forall_mem_append] at hfree
    obtain ⟨ht, hheading, hlog⟩ := hfree
    simp only [tokensOf_cons, tokensOf_append, tokensOf_atDepth, outline_leaf hchildren,
      openers_opens hopener, openers_append, openers_taken hs.taken hopener ht hheading, ih hlog hl,
      List.nil_append]
  | block _ hs _ hc _ ihbody ih =>
    have hopener := block_node hs
    simp only [tokensOf_cons, tokensOf_append, tokensOf_atDepth, List.forall_mem_cons,
      List.forall_mem_append] at hfree
    obtain ⟨ht, hheading, hinner, hclose, hlog⟩ := hfree
    obtain ⟨hdeeper, hlimited⟩ := Bool.or_eq_false_iff.mp hl
    simp only [tokensOf_cons, tokensOf_append, tokensOf_atDepth, outline_construct,
      openers_opens hopener, openers_append, openers_taken hs.taken hopener ht hheading,
      openers_taken hc.taken hopener ht hclose, ihbody hinner hdeeper, ih hlog hlimited,
      List.nil_append]

end Parse

/-- The tokens before the first `eof`. -/
def beforeEnd (tokens : List Token) : List Token := tokens.takeWhile (·.kind ≠ .eof)

namespace Program
open Parse

theorem beforeEnd_cons {t : Token} {ts : List Token} (h : t.kind ≠ .eof) :
    beforeEnd (t :: ts) = t :: beforeEnd ts := by
  simp [beforeEnd, h]

theorem beforeEnd_append {ts rest : List Token} (hts : ∀ t ∈ ts, t.kind ≠ .eof)
    (hrest : Heading.nextKind rest = .eof) : beforeEnd (ts ++ rest) = ts := by
  have hall : ∀ t ∈ ts, decide (t.kind ≠ .eof) = true := by simpa using hts
  rw [beforeEnd, List.takeWhile_append_of_pos hall]
  cases rest with
  | nil => simp
  | cons t rest =>
    have ht : t.kind = .eof := hrest
    simp [ht]

/-- Layout opens nothing and ends nothing. -/
theorem openers_significant (tokens : List Token) :
    openers (beforeEnd (significant tokens)) = openers (beforeEnd tokens) := by
  induction tokens with
  | nil => rfl
  | cons t tokens ih =>
    cases ht : t.kind.isTrivia with
    | true =>
      have hopener : t.opener? = none := by
        cases hk : t.kind <;> simp_all [Token.opener?, Token.Kind.isTrivia]
      have hnot : t.kind ≠ .eof := by
        intro hk
        simp [hk, Token.Kind.isTrivia] at ht
      have hkept : significant (t :: tokens) = significant tokens := by simp [significant, ht]
      rw [hkept, beforeEnd_cons hnot, openers_other hopener, ih]
    | false =>
      have hkept : significant (t :: tokens) = t :: significant tokens := by simp [significant, ht]
      rw [hkept]
      by_cases hk : t.kind = .eof
      · simp [beforeEnd, hk]
      · rw [beforeEnd_cons hk, beforeEnd_cons hk, ← List.singleton_append, openers_append, ih,
          ← openers_append, List.singleton_append]

/-- The nodes of a text are read from its tokens. -/
theorem exists_reading_of_text (text : String) :
    ∃ log rest nodes limited, Reading maxDepth 0 log rest nodes limited ∧
      (∀ t ∈ tokensOf log ++ rest, t ∈ Token.scan text) ∧
      (parseSource text).nodes = Node.preorderAll 1 nodes := by
  obtain ⟨log, rest, nodes, limited, hts, hread, hparse⟩ :=
    exists_statements maxDepth (significant (Token.scan text))
  refine ⟨log, rest, nodes, limited, hread, fun t ht => ?_, ?_⟩
  · rw [← hts] at ht
    exact List.mem_of_mem_filter ht
  · rw [parseSource, parse, hparse]
    rfl

/-- The reading of a document covers its tokens up to the end. -/
theorem openers_reading {tokens rest : List Token} {log : List (Nat × Token)} {nodes : List Node}
    {limited : Bool} (hts : significant tokens = tokensOf log ++ rest)
    (h : Reading maxDepth 0 log rest nodes limited) :
    openers (tokensOf log) = openers (beforeEnd tokens) := by
  rw [← openers_significant, hts, beforeEnd_append h.not_eof h.nextKind_rest]

theorem openers_locations (ts : List Token) :
    ((openers ts).map Prod.snd).Sublist (ts.map Token.location) := by
  induction ts with
  | nil => exact List.Sublist.refl []
  | cons t ts ih =>
    cases ho : t.opener? with
    | none =>
      rw [openers_other ho]
      exact ih.cons _
    | some o =>
      rw [openers_opens ho, List.map_cons, List.map_cons, location_opener? ho]
      exact ih.cons_cons _

/-- The places of nodes are places of tokens. -/
theorem locations_sublist {entries : List (Nat × Node)} {tokens : List Token}
    (h : (outline entries).Sublist (openers (beforeEnd tokens))) :
    (entries.map (·.2.location)).Sublist (tokens.map Token.location) := by
  have hbefore : (beforeEnd tokens).Sublist tokens := List.takeWhile_sublist _
  have hlocations : (outline entries).map Prod.snd = entries.map (·.2.location) := by simp [outline]
  rw [← hlocations]
  exact ((h.map Prod.snd).trans (openers_locations _)).trans (hbefore.map _)

/-- The constructs of a document are those of its tokens before the end, in their order and none
twice. None is missing unless a list of names, a type or the limit of nesting hides it. In a source
each construct stands after those before it. -/
theorem outline_parse (tokens : List Token) :
    (outline (parse tokens).nodes).Sublist (openers (beforeEnd tokens)) ∧
      ((∀ t ∈ tokens, hides t.kind = false) →
        (Parse.statements maxDepth (significant tokens)).depthLimited = false →
        outline (parse tokens).nodes = openers (beforeEnd tokens)) ∧
      ∀ source, tokens = Token.scan source →
        Token.InOrder source ((parse tokens).nodes.map (·.2.location)) := by
  obtain ⟨log, rest, nodes, limited, hts, hread, hparse⟩ :=
    exists_statements maxDepth (significant tokens)
  have hnodes : (parse tokens).nodes = Node.preorderAll 1 nodes := by
    rw [parse, hparse, Program.nodes]
  have hopeners := openers_reading hts hread
  have hsub : (outline (parse tokens).nodes).Sublist (openers (beforeEnd tokens)) := by
    rw [hnodes, ← hopeners]
    exact hread.outline_sublist
  refine ⟨hsub, ?_, ?_⟩
  · intro hfree hl
    rw [hparse] at hl
    rw [hnodes, ← hopeners]
    refine hread.outline_eq ?_ hl
    intro u hu
    have hu : u ∈ significant tokens := by rw [hts]; exact List.mem_append_left _ hu
    exact hfree u (List.mem_filter.mp hu).1
  · rintro source rfl
    exact (Token.inOrder_scan source).sublist (locations_sublist hsub)

def listedText : String := "page P \x7b state \x7b \x7d import \x7b a, b \x7d \x7d page \x7d"

/-- Where nothing is hidden, no construct is missing. -/
theorem outline_parse_listed :
    (∀ t ∈ Token.scan listedText, hides t.kind = false) ∧
      (Parse.statements maxDepth (significant (Token.scan listedText))).depthLimited = false ∧
      outline (parse (Token.scan listedText)).nodes = openers (beforeEnd (Token.scan listedText)) :=
  have hfree : ∀ t ∈ Token.scan listedText, hides t.kind = false := by decide +kernel
  have hlimited : (Parse.statements maxDepth (significant (Token.scan listedText))).depthLimited =
      false := by decide +kernel
  ⟨hfree, hlimited, (outline_parse (Token.scan listedText)).2.1 hfree hlimited⟩

end Program

end Folio
