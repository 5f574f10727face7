import Folio.Proofs.Readings
import Folio.Result

/-! Where tokens stand decides nothing: the parser carries their places to the nodes, and neither
the generated texts nor the warnings depend on them. -/

namespace Folio

/-- A token at another place. -/
def Token.relocate (f : Location → Location) (t : Token) : Token :=
  { t with location := f t.location }

namespace Token
variable (f : Location → Location) (t : Token)

@[simp]
theorem kind_relocate : (t.relocate f).kind = t.kind := rfl

@[simp]
theorem text_relocate : (t.relocate f).text = t.text := rfl

@[simp]
theorem value_relocate : (t.relocate f).value = t.value := rfl

end Token

namespace Node

mutual

/-- A node and all nodes below it at other places. -/
def relocate (f : Location → Location) : Node → Node
  | construct header name attributes children location =>
    construct header name attributes (relocateAll f children) (f location)
  | imports specifiers source location => imports specifiers source (f location)
  | exports specifiers source isDefault location => exports specifiers source isDefault (f location)
  | element tag attributes children selfClosing location =>
    element tag attributes (relocateAll f children) selfClosing (f location)
  | text value location => text value (f location)
  | expression code location => expression code (f location)

def relocateAll (f : Location → Location) : List Node → List Node
  | [] => []
  | n :: ns => relocate f n :: relocateAll f ns

end

variable {f : Location → Location}

theorem relocateAll_append (ns more : List Node) :
    relocateAll f (ns ++ more) = relocateAll f ns ++ relocateAll f more := by
  induction ns with
  | nil => rw [List.nil_append, relocateAll, List.nil_append]
  | cons n ns ih => rw [List.cons_append, relocateAll, ih, relocateAll, List.cons_append]

theorem relocateAll_eq_map (ns : List Node) : relocateAll f ns = ns.map (relocate f) := by
  induction ns with
  | nil => rw [relocateAll, List.map_nil]
  | cons n ns ih => rw [relocateAll, ih, List.map_cons]

/-- What does not depend on places is the same for nodes at other places. -/
theorem map_relocate {α : Type} {g : Node → α} (hg : ∀ n : Node, g (n.relocate f) = g n)
    (ns : List Node) : (ns.map (relocate f)).map g = ns.map g := by
  rw [List.map_map]
  exact List.map_congr_left fun n _ => hg n

end Node

namespace Heading
open Token (Kind)

variable {f : Location → Location} {ts : List Token} {t : Token}

def Opening.relocate (f : Location → Location) : Opening → Opening
  | whole node => whole (node.relocate f)
  | construct header name attributes => construct header name attributes

theorem nextKind_map : nextKind (ts.map (Token.relocate f)) = nextKind ts := by
  cases ts <;> rfl

theorem skip_map (kind : Kind) :
    skip kind (ts.map (Token.relocate f)) = (skip kind ts).map (Token.relocate f) := by
  cases ts with
  | nil => rfl
  | cons t ts =>
    by_cases h : t.kind = kind <;> simp [skip, h]

theorem identifier?_map : identifier? (ts.map (Token.relocate f)) =
    ((identifier? ts).1, (identifier? ts).2.map (Token.relocate f)) := by
  cases ts with
  | nil => rfl
  | cons t ts =>
    by_cases h : t.kind = .identifier <;> simp [identifier?, h]

theorem string?_map : string? (ts.map (Token.relocate f)) =
    ((string? ts).1, (string? ts).2.map (Token.relocate f)) := by
  cases ts with
  | nil => rfl
  | cons t ts =>
    by_cases h : t.kind = .string <;> simp [string?, h]

theorem attributesFrom_map (done : Attributes) : attributesFrom done (ts.map (Token.relocate f)) =
    ((attributesFrom done ts).1, (attributesFrom done ts).2.map (Token.relocate f)) := by
  fun_induction attributesFrom done ts with
  | case1 => rfl
  | case2 done t ts he => exact attributesFrom_end he
  | case3 done t he hi => simp [attributesFrom, hi, endsAttributes_identifier]
  | case4 done t he hi a ha => simp [attributesFrom, hi, ha, endsAttributes_identifier]
  | case5 done t he hi a ha v ts hv ih =>
    have hi : (t.relocate f).kind = .identifier := hi
    have ha : (a.relocate f).kind = .symbol .assign := ha
    have hv : (v.relocate f).kind = .string := hv
    exact (attributesFrom_pair hi ha hv).trans ih
  | case6 done t he hi a ha v ts hv ih =>
    have hi : (t.relocate f).kind = .identifier := hi
    have ha : (a.relocate f).kind = .symbol .assign := ha
    have hv : nextKind ((v :: ts).map (Token.relocate f)) ≠ .string := hv
    exact (attributesFrom_assign hi ha hv).trans ih
  | case7 done t he hi a ts ha ih =>
    have hi : (t.relocate f).kind = .identifier := hi
    have ha : nextKind ((a :: ts).map (Token.relocate f)) ≠ .symbol .assign := ha
    exact (attributesFrom_key hi ha).trans ih
  | case8 done t ts he hi ih =>
    have he : endsAttributes (t.relocate f).kind = false := Bool.not_eq_true _ ▸ he
    have hi : (t.relocate f).kind ≠ .identifier := hi
    exact (attributesFrom_other he hi).trans ih

theorem namesFrom_map (close : Symbol) (done : List String) :
    namesFrom close done (ts.map (Token.relocate f)) =
      ((namesFrom close done ts).1, (namesFrom close done ts).2.map (Token.relocate f)) := by
  fun_induction namesFrom close done ts <;> simp_all [namesFrom, Token.relocate]

theorem definitionFrom_map (depth : Nat) (done : List String) :
    definitionFrom depth done (ts.map (Token.relocate f)) =
      ((definitionFrom depth done ts).1,
        (definitionFrom depth done ts).2.map (Token.relocate f)) := by
  fun_induction definitionFrom depth done ts <;> simp_all [definitionFrom, Token.relocate]

theorem specifiersFrom_map (braced : Bool) (done : List String) :
    specifiersFrom braced done (ts.map (Token.relocate f)) =
      ((specifiersFrom braced done ts).1,
        (specifiersFrom braced done ts).2.map (Token.relocate f)) := by
  fun_induction specifiersFrom braced done ts with
  | case1 => rfl
  | case2 done t hn =>
    have hn : namesModulePart (t.relocate f).kind = true := hn
    exact specifiersFrom_name hn (by simp [nextKind])
  | case3 done t hn as ha =>
    have hn : namesModulePart (t.relocate f).kind = true := hn
    have ha : (as.relocate f).kind = .keyword .renamed := ha
    exact specifiersFrom_unnamed hn ha (by simp [nextKind])
  | case4 done t hn as ha o ts ho ih =>
    have hn : namesModulePart (t.relocate f).kind = true := hn
    have ha : (as.relocate f).kind = .keyword .renamed := ha
    have ho : (o.relocate f).kind = .identifier := ho
    exact (specifiersFrom_renamed hn ha ho).trans ih
  | case5 done t hn as ha o ts ho ih =>
    have hn : namesModulePart (t.relocate f).kind = true := hn
    have ha : (as.relocate f).kind = .keyword .renamed := ha
    have ho : nextKind ((o :: ts).map (Token.relocate f)) ≠ .identifier := ho
    exact (specifiersFrom_unnamed hn ha ho).trans ih
  | case6 done t hn as ts ha ih =>
    have hn : namesModulePart (t.relocate f).kind = true := hn
    have ha : nextKind ((as :: ts).map (Token.relocate f)) ≠ .keyword .renamed := ha
    exact (specifiersFrom_name hn ha).trans ih
  | case7 done t ts _ hc ih =>
    have hc : (t.relocate f).kind = .symbol .comma := hc
    exact (specifiersFrom_comma hc).trans ih
  | case8 done t ts _ _ hb =>
    simp only [Bool.and_eq_true, decide_eq_true_eq] at hb
    rw [hb.2]
    exact specifiersFrom_close hb.1
  | case9 done t ts hn hc hb =>
    have hn : namesModulePart (nextKind ((t :: ts).map (Token.relocate f))) = false :=
      Bool.not_eq_true _ ▸ hn
    refine specifiersFrom_end hn hc ?_
    intro hbraced hk
    have hk : t.kind = .symbol .rightBrace := hk
    exact hb (by simp [hbraced, hk])

theorem names_map (opening close : Symbol) : names opening close (ts.map (Token.relocate f)) =
    ((names opening close ts).1, (names opening close ts).2.map (Token.relocate f)) := by
  cases ts with
  | nil => rfl
  | cons t ts =>
    by_cases h : t.kind = .symbol opening
    · simp [names, h, namesFrom_map, skip_map]
    · simp [names, h]

theorem target?_map : target? (ts.map (Token.relocate f)) =
    ((target? ts).1, (target? ts).2.map (Token.relocate f)) := by
  cases ts with
  | nil => rfl
  | cons t ts =>
    by_cases hk : t.kind = .identifier <;> by_cases ht : t.text = "on" <;>
      simp [target?, hk, ht, identifier?_map]

theorem source?_map : source? (ts.map (Token.relocate f)) =
    ((source? ts).1, (source? ts).2.map (Token.relocate f)) := by
  cases ts with
  | nil => rfl
  | cons t ts =>
    by_cases h : t.kind = .keyword .source
    · simp [source?, h, string?_map]
    · simp [source?, h]

theorem specifiers_map : specifiers (ts.map (Token.relocate f)) =
    ((specifiers ts).1, (specifiers ts).2.map (Token.relocate f)) := by
  cases ts with
  | nil => rfl
  | cons t ts =>
    by_cases h : t.kind = .symbol .leftBrace
    · simp [specifiers, h, specifiersFrom_map]
    · have hrest : specifiersFrom false [] ((t :: ts).map (Token.relocate f)) = _ :=
        specifiersFrom_map false []
      simpa [specifiers, h] using hrest

theorem path?_map (specifiers : List String) : path? specifiers (ts.map (Token.relocate f)) =
    ((path? specifiers ts).1, (path? specifiers ts).2.map (Token.relocate f)) := by
  rw [path?, path?, nextKind_map]
  split
  · exact string?_map
  · exact source?_map

theorem default?_map : default? (ts.map (Token.relocate f)) =
    ((default? ts).1, (default? ts).2.map (Token.relocate f)) := by
  cases ts with
  | nil => rfl
  | cons t ts =>
    by_cases hk : t.kind = .identifier <;> by_cases ht : t.text = "default" <;>
      simp [default?, startsDefault, hk, ht]

variable {location : Location}

theorem imports_map : imports (f location) (ts.map (Token.relocate f)) =
    ((imports location ts).1.relocate f, (imports location ts).2.map (Token.relocate f)) := by
  simp only [imports_eq, specifiers_map, path?_map, skip_map, Node.relocate]

theorem exports_eq (ts : List Token) : exports location ts =
    (.exports (specifiers (default? ts).2).1 (source? (specifiers (default? ts).2).2).1
      (default? ts).1 location,
      skip (.symbol .semicolon) (source? (specifiers (default? ts).2).2).2) := rfl

theorem exports_map : exports (f location) (ts.map (Token.relocate f)) =
    ((exports location ts).1.relocate f, (exports location ts).2.map (Token.relocate f)) := by
  simp only [exports_eq, default?_map, specifiers_map, source?_map, skip_map, Node.relocate]

theorem definition_map : definition (ts.map (Token.relocate f)) =
    ((definition ts).1, (definition ts).2.map (Token.relocate f)) := by
  simp only [definition, definitionFrom_map]

theorem typeEnd_map (name : String) : typeEnd (f location) name (ts.map (Token.relocate f)) =
    ((typeEnd location name ts).1.relocate f,
      (typeEnd location name ts).2.map (Token.relocate f)) := by
  rw [typeEnd, typeEnd, nextKind_map, ← List.map_tail, definition_map, skip_map]
  split <;> rfl

theorem name_map : name (ts.map (Token.relocate f)) =
    ((name ts).1, (name ts).2.map (Token.relocate f)) := by
  rw [name, identifier?_map, name]

theorem opened_map (header : Header) (name : String) :
    opened header name (ts.map (Token.relocate f)) =
      ((opened header name ts).1.relocate f, (opened header name ts).2.map (Token.relocate f)) := by
  simp only [opened, attributes, attributesFrom_map, Opening.relocate]

theorem opening_map (k : Keyword) : opening k (f location) (ts.map (Token.relocate f)) =
    (opening k location ts).map fun r => (r.1.relocate f, r.2.map (Token.relocate f)) := by
  cases k with
  | source | renamed | reserved => rfl
  | type => simp only [opening, type_eq, name_map, typeEnd_map, Option.map_some]
  | imports => simp only [opening, imports_map, Option.map_some, Opening.relocate]
  | exports => simp only [opening, exports_map, Option.map_some, Opening.relocate]
  | _ =>
    simp only [opening, name_map, names_map, target?_map, string?_map, identifier?_map, skip_map,
      opened_map, Option.map_some]

end Heading

namespace Parse
open Heading

variable {f : Location → Location} {ts : List Token} {t : Token}

def Start.relocate (f : Location → Location) : Start → Start
  | leaf node => leaf (node.relocate f)
  | block header name attributes => block header name attributes

def Outcome.relocate (f : Location → Location) (r : Outcome) : Outcome :=
  ⟨Node.relocateAll f r.statements, r.depthLimited, r.rest.map (Token.relocate f)⟩

theorem afterHeading_map (header : Header) : afterHeading header (ts.map (Token.relocate f)) =
    (afterHeading header ts).map (Token.relocate f) := by
  cases header with
  | type => exact skip_map _
  | _ => rfl

theorem afterBody_map (header : Header) : afterBody header (ts.map (Token.relocate f)) =
    (afterBody header ts).map (Token.relocate f) := by
  cases header <;> simp only [afterBody, skip_map]

theorem start_map : start (t.relocate f) (ts.map (Token.relocate f)) =
    (start t ts).map fun r => (r.1.relocate f, r.2.map (Token.relocate f)) := by
  have hopen : opening (t.relocate f) (ts.map (Token.relocate f)) =
      (opening t ts).map fun r => (r.1.relocate f, r.2.map (Token.relocate f)) := by
    simp only [opening, Token.kind_relocate]
    split
    · exact opening_map _
    · rfl
  rw [start, start, hopen]
  cases opening t ts with
  | none => rfl
  | some r =>
    obtain ⟨o, after⟩ := r
    cases o with
    | whole node => rfl
    | construct header name attributes =>
      simp only [Option.map_some, Opening.relocate, nextKind_map]
      split
      · simp [Start.relocate, List.map_tail]
      · simp [Start.relocate, afterHeading_map, Node.relocate, Node.relocateAll]
        rfl

theorem relocate_prepend (r : Outcome) (done : List Node) (limited : Bool) :
    (r.prepend done limited).relocate f =
      (r.relocate f).prepend (Node.relocateAll f done) limited := by
  simp [Outcome.prepend, Outcome.relocate, Node.relocateAll_append]

theorem body_map (limit : Option Nat) (depth : Nat) (ts : List Token) :
    body limit depth (ts.map (Token.relocate f)) = (body limit depth ts).relocate f := by
  match ts with
  | [] => simp [Outcome.relocate, Node.relocateAll]
  | t :: ts =>
    rw [List.map_cons]
    cases he : endsBody depth t.kind with
    | true =>
      rw [body_end (t := t.relocate f) he, body_end he]
      simp [Outcome.relocate, Node.relocateAll]
    | false =>
      cases ho : t.kind.opensConstruct with
      | false => rw [body_skip (t := t.relocate f) he ho, body_skip he ho, body_map limit depth ts]
      | true =>
        cases hd : tooDeep limit depth with
        | true =>
          rw [body_deep (t := t.relocate f) he ho hd, body_deep he ho hd, body_map limit depth ts,
            relocate_prepend, Node.relocateAll]
        | false =>
          obtain ⟨s, after, hs⟩ := start_some ho ts
          have hle := length_start_le hs
          have hs' : start (t.relocate f) (ts.map (Token.relocate f)) =
              some (s.relocate f, after.map (Token.relocate f)) := by rw [start_map, hs]; rfl
          cases s with
          | leaf node =>
            rw [body_leaf hd hs', body_leaf hd hs, body_map limit depth after, relocate_prepend,
              Node.relocateAll, Node.relocateAll]
          | block header name attributes =>
            have hrest : (body limit (depth + 1) after).rest.length ≤ after.length :=
              length_body_rest_le
            have hnext := length_afterBody_le header (body limit (depth + 1) after).rest
            have hinner := body_map limit (depth + 1) after
            have hmore :=
              body_map limit depth (afterBody header (body limit (depth + 1) after).rest)
            rw [body_open hd hs', body_open hd hs, relocate_prepend, hinner]
            simp only [Outcome.relocate, afterBody_map] at hmore ⊢
            rw [hmore]
            simp [Node.relocateAll, Node.relocate, Outcome.prepend]
            rfl
termination_by ts.length
decreasing_by all_goals simp only [List.length_cons]; omega

end Parse

section Results
variable (f : Location → Location)

mutual

theorem Output.ofNode_relocate (n : Node) : ofNode (n.relocate f) = ofNode n := by
  cases n with
  | construct header name attributes children location =>
    rw [Node.relocate, ofNode, ofNode, ofNodesAfter_relocateAll {} children]
  | imports | exports | element | text | expression => rfl

theorem Output.ofNodesAfter_relocateAll (done : Output) (ns : List Node) :
    ofNodesAfter done (Node.relocateAll f ns) = ofNodesAfter done ns := by
  cases ns with
  | nil => rw [Node.relocateAll]
  | cons n ns =>
    rw [Node.relocateAll, ofNodesAfter, ofNodesAfter, Output.ofNode_relocate n,
      Output.ofNodesAfter_relocateAll _ ns]

end

mutual

theorem Stats.add_relocate (s : Stats) (n : Node) : s.add (n.relocate f) = s.add n := by
  cases n with
  | construct header name attributes children location =>
    rw [Node.relocate, add, add]
    dsimp only [Node.kind]
    rw [Stats.addAll_relocateAll _ children]
  | element tag attributes children selfClosing location =>
    rw [Node.relocate, add, add]
    dsimp only [Node.kind]
    rw [Stats.addAll_relocateAll _ children]
  | imports | exports | text | expression => rfl

theorem Stats.addAll_relocateAll (s : Stats) (ns : List Node) :
    s.addAll (Node.relocateAll f ns) = s.addAll ns := by
  cases ns with
  | nil => rw [Node.relocateAll]
  | cons n ns =>
    rw [Node.relocateAll, addAll, addAll, Stats.add_relocate s n, Stats.addAll_relocateAll _ ns]

end

/-- Sources with the same tokens up to their places compile alike. -/
theorem compile_congr {source other : String} (options : Options)
    (h : (Program.significant (Token.scan source)).map (Token.relocate f) =
      (Program.significant (Token.scan other)).map (Token.relocate f)) :
    compile source options = compile other options := by
  have hparse : (Parse.statements maxDepth (Program.significant (Token.scan source))).relocate f =
      (Parse.statements maxDepth (Program.significant (Token.scan other))).relocate f := by
    rw [Parse.statements_eq_body, Parse.statements_eq_body, ← Parse.body_map, h, Parse.body_map]
  simp only [Parse.Outcome.relocate, Parse.Outcome.mk.injEq] at hparse
  obtain ⟨hstatements, hlimited, -⟩ := hparse
  have hemit := congrArg Output.ofNodes hstatements
  have hstats := congrArg (({} : Stats).addAll) hstatements
  rw [Stats.addAll_relocateAll, Stats.addAll_relocateAll] at hstats
  simp only [Output.ofNodes, Output.ofNodesAfter_relocateAll] at hemit
  simp only [compile, Program.emit, Output.ofNodes, Program.stats, hlimited, hemit, hstats]

end Results

end Folio
