import Folio.Proofs.Readings
import Folio.Proofs.Unread
import Mathlib.Logic.Relation

/-! The parser's loop, turn by turn. A turn leaves the tokens that it does not take, and does the
same to those it takes if the others are cut off. So tokens can be parsed in two parts wherever a
turn ends. -/

namespace Folio.Parse
open Token (Kind)
open Heading

variable {limit : Option Nat} {depth : Nat} {t : Token} {ts rest left : List Token}

/-- What comes of a heading and the tokens after it, up to a body. -/
def startAfter (location : Location) : Opening → List Token → Start × List Token
  | .whole node, ts => (.leaf node, ts)
  | .construct header name attributes, ts =>
    if nextKind ts = .symbol .leftBrace then (.block header name attributes, ts.tail)
    else (.leaf (.construct header name attributes [] location), afterHeading header ts)

theorem start_eq (t : Token) (ts : List Token) :
    start t ts = (opening t ts).map fun r => startAfter t.location r.1 r.2 := by
  rw [start]
  split
  · next h => rw [h]; rfl
  · next h => rw [h]; rfl
  · next h =>
    rw [h, Option.map_some, startAfter]
    split <;> rfl

theorem cuttable_afterHeading (header : Header) :
    Cuttable fun ts => ((), afterHeading header ts) := by
  cases header with
  | type => exact cuttable_semicolon ()
  | _ => exact .pure ()

theorem cuttable_startAfter (location : Location) (o : Opening) :
    Cuttable (startAfter location o) := by
  cases o with
  | whole node => exact .pure (Start.leaf node)
  | construct header name attributes =>
    have hleaf := (cuttable_afterHeading header).map fun _ =>
      Start.leaf (.construct header name attributes [] location)
    refine .choice (·.kind = .symbol .leftBrace) (fun _ ts => (.block header name attributes, ts))
      (fun _ => .pure _) hleaf rfl fun t ts => ?_
    by_cases h : t.kind = .symbol .leftBrace <;> simp [startAfter, h]

theorem cuttable_start (ho : t.kind.opensConstruct = true) :
    ∃ f, Cuttable f ∧ ∀ ts, start t ts = some (f ts) := by
  cases hk : t.kind with
  | keyword k =>
    rw [hk] at ho
    obtain ⟨f, hf, hopen⟩ := cuttable_opening t.location ho
    refine ⟨_, hf.bind (cuttable_startAfter t.location), fun ts => ?_⟩
    rw [start_eq, opening, hk]
    simp only [hopen, Option.map_some]
  | _ => simp [hk, Kind.opensConstruct] at ho

theorem body_suffix : (body limit depth ts).rest <:+ ts := by
  obtain ⟨log, rest, nodes, limited, rfl, hread⟩ := exists_reading limit depth ts
  rw [hread.body_eq]
  exact List.suffix_append _ _

theorem endsBody_rest (limit : Option Nat) (depth : Nat) (ts : List Token) :
    endsBody depth (nextKind (body limit depth ts).rest) = true := by
  obtain ⟨log, rest, nodes, limited, rfl, hread⟩ := exists_reading limit depth ts
  rw [hread.body_eq]
  exact hread.ends

theorem body_cut {r : Outcome} (h : body limit depth (ts ++ rest) = r) (hr : r.rest = left ++ rest)
    (hp : peek left = peek (left ++ rest)) :
    body limit depth ts = ⟨r.statements, r.depthLimited, left⟩ := by
  obtain ⟨log, more, nodes, limited, hts, hread⟩ := exists_reading limit depth (ts ++ rest)
  rw [hts, hread.body_eq] at h
  subst h hr
  rw [← List.append_assoc] at hts
  rw [List.append_cancel_right hts]
  exact (hread.frame hp).body_eq

theorem cuttable_afterBody (header : Header) : Cuttable fun ts => ((), afterBody header ts) := by
  cases header with
  | type => exact (cuttable_skip _).bind fun _ => cuttable_semicolon ()
  | _ => exact cuttable_skip _

theorem nextKind_ne_of_afterBody {header : Header} (h : afterBody header ts = ts) :
    nextKind ts ≠ .symbol .rightBrace := by
  intro hk
  obtain ⟨brace, ts, rfl, hb⟩ := exists_cons_of_nextKind hk (by simp)
  have hskip : skip (.symbol .rightBrace) (brace :: ts) = ts := if_pos hb
  have hle : (afterBody header (brace :: ts)).length ≤ ts.length := by
    cases header <;> simp only [afterBody, hskip, length_skip_le, Nat.le_refl]
  rw [h, List.length_cons] at hle
  omega

theorem peek_of_eof (h : nextKind ts = .eof) : peek ts = none := by
  cases ts with
  | nil => rfl
  | cons t ts => exact peek_eof h

/-- Parses a body and what closes it. -/
def block (limit : Option Nat) (depth : Nat) (header : Header) (ts : List Token) :
    (List Node × Bool) × List Token :=
  let inner := body limit (depth + 1) ts
  ((inner.statements, inner.depthLimited), afterBody header inner.rest)

theorem cuttable_block (header : Header) : Cuttable (block limit depth header) := by
  have hclose := cuttable_afterBody header
  refine ⟨fun ts => (hclose.suffix _).trans body_suffix, fun {ts rest left x} h => ?_⟩
  have hafter : afterBody header (body limit (depth + 1) (ts ++ rest)).rest = left ++ rest :=
    congrArg Prod.snd h
  obtain ⟨close, hc⟩ := hclose.suffix (body limit (depth + 1) (ts ++ rest)).rest
  simp only [hafter] at hc
  rw [← List.append_assoc] at hc
  have hleft : afterBody header (close ++ left) = left :=
    congrArg Prod.snd (hclose.cut (Prod.ext rfl (hc ▸ hafter)))
  have hp : peek (close ++ left) = peek (close ++ left ++ rest) := by
    cases hcl : close ++ left with
    | cons u more => rfl
    | nil =>
      -- The body ends in front of `rest`, and no brace is there that closes it.
      have hends := endsBody_rest limit (depth + 1) (ts ++ rest)
      obtain ⟨rfl, rfl⟩ := List.append_eq_nil_iff.mp hcl
      rw [← hc] at hends hafter
      have hopen : nextKind rest ≠ .symbol .rightBrace := nextKind_ne_of_afterBody hafter
      exact (peek_of_eof (by simpa [endsBody, hopen] using hends)).symm
  have hbody := body_cut rfl hc.symm hp
  simp only [block, hbody, hleft]
  exact Prod.ext (congrArg (·.1) h :) rfl

/-- What comes of a statement, with its body. -/
def turnAfter (limit : Option Nat) (depth : Nat) (location : Location) :
    Start → List Token → (List Node × Bool) × List Token
  | .leaf node, ts => (([node], false), ts)
  | .block header name attributes, ts =>
    let inner := block limit depth header ts
    (([.construct header name attributes inner.1.1 location], inner.1.2), inner.2)

/-- What the loop does at a token that does not end the body: the statements that it parses, whether
some were nested too deep, and the tokens that are left for the next turn. -/
def turn (limit : Option Nat) (depth : Nat) (t : Token) (ts : List Token) :
    (List Node × Bool) × List Token :=
  if t.kind.opensConstruct && tooDeep limit depth then (([], true), ts)
  else
    match start t ts with
    | none => (([], false), ts)
    | some (s, after) => turnAfter limit depth t.location s after

theorem turn_deep (ho : t.kind.opensConstruct = true) (hd : tooDeep limit depth = true) :
    turn limit depth t ts = (([], true), ts) := by
  rw [turn, ho, hd]
  rfl

theorem turn_skip (ho : t.kind.opensConstruct = false) :
    turn limit depth t ts = (([], false), ts) := by
  rw [turn, ho, start, opening_none ho]
  rfl

theorem turn_start {s : Start} {after : List Token} (hd : tooDeep limit depth = false)
    (hs : start t ts = some (s, after)) :
    turn limit depth t ts = turnAfter limit depth t.location s after := by
  rw [turn, hd, Bool.and_false, hs]
  rfl

/-- What a body comes to is what its first turn does, and then the others. -/
theorem body_turn (he : endsBody depth t.kind = false) :
    body limit depth (t :: ts) =
      (body limit depth (turn limit depth t ts).2).prepend (turn limit depth t ts).1.1
        (turn limit depth t ts).1.2 := by
  cases ho : t.kind.opensConstruct with
  | false =>
    rw [turn_skip ho, body_skip he ho]
    rfl
  | true =>
    cases hd : tooDeep limit depth with
    | true =>
      rw [turn_deep ho hd]
      exact body_deep he ho hd
    | false =>
      obtain ⟨s, after, hs⟩ := start_some ho ts
      rw [turn_start hd hs]
      cases s with
      | leaf node => exact body_leaf hd hs
      | block header name attributes => exact body_open hd hs

theorem cuttable_turnAfter (location : Location) (s : Start) :
    Cuttable (turnAfter limit depth location s) := by
  cases s with
  | leaf node => exact .pure ([node], false)
  | block header name attributes =>
    exact (cuttable_block header).map fun inner =>
      ([Node.construct header name attributes inner.1 location], inner.2)

/-- What a turn leaves can be cut off. -/
theorem cuttable_turn (t : Token) : Cuttable (turn limit depth t) := by
  cases ho : t.kind.opensConstruct with
  | false =>
    rw [show turn limit depth t = _ from funext fun ts => turn_skip ho]
    exact .pure ([], false)
  | true =>
    cases hd : tooDeep limit depth with
    | true =>
      rw [show turn limit depth t = _ from funext fun ts => turn_deep ho hd]
      exact .pure ([], true)
    | false =>
      obtain ⟨f, hf, hstart⟩ := cuttable_start ho
      rw [show turn limit depth t = _ from funext fun ts => turn_start hd (hstart ts)]
      exact hf.bind (cuttable_turnAfter t.location)

/-- A turn of the loop goes from some tokens to those that it leaves. -/
def Turn (limit : Option Nat) (depth : Nat) (ts rest : List Token) : Prop :=
  ∃ t more, ts = t :: more ∧ endsBody depth t.kind = false ∧ (turn limit depth t more).2 = rest

/-- The loop comes from some tokens to others, which are all that is left then. -/
def Reaches (limit : Option Nat) (depth : Nat) : List Token → List Token → Prop :=
  Relation.ReflTransGen (Turn limit depth)

theorem Turn.suffix (h : Turn limit depth (t :: ts) rest) : rest <:+ ts := by
  obtain ⟨_, _, ⟨⟩, -, rfl⟩ := h
  exact (cuttable_turn t).suffix ts

theorem Reaches.suffix (h : Reaches limit depth ts rest) : rest <:+ ts := by
  induction h using Relation.ReflTransGen.head_induction_on with
  | refl => exact List.suffix_refl rest
  | head hturn _ ih =>
    obtain ⟨t, more, rfl, -⟩ := id hturn
    exact ih.trans (hturn.suffix.trans (List.suffix_cons t more))

/-- Where the loop comes to `rest`, it parses the tokens before as if nothing followed. -/
theorem Reaches.body_append (h : Reaches limit depth (ts ++ rest) rest) :
    body limit depth (ts ++ rest) =
      (body limit depth rest).prepend (body limit depth ts).statements
        (body limit depth ts).depthLimited := by
  generalize hl : ts ++ rest = l at h
  induction h using Relation.ReflTransGen.head_induction_on generalizing ts with
  | refl =>
    rw [List.append_cancel_right (hl.trans (List.nil_append rest).symm), body_nil]
    rfl
  | head hturn hmore ih =>
    obtain ⟨left, hleft⟩ := Reaches.suffix hmore
    obtain ⟨t, more, rfl, he, hrest⟩ := id hturn
    cases ts with
    | nil =>
      -- A turn takes at least its token.
      have hlen := (Reaches.suffix hmore).length_le
      have hlen' := hturn.suffix.length_le
      rw [List.nil_append] at hl
      rw [hl, List.length_cons] at hlen
      omega
    | cons u ts =>
      rw [List.cons_append, List.cons.injEq] at hl
      obtain ⟨rfl, rfl⟩ := hl
      have hcut := (cuttable_turn u).cut (Prod.ext rfl (hrest.trans hleft.symm))
      rw [body_turn he, body_turn he, hrest, ih hleft, hcut]
      simp [Outcome.prepend, Bool.or_assoc]

end Folio.Parse

namespace Folio.Program
open Parse

theorem significant_append (a b : List Token) :
    significant (a ++ b) = significant a ++ significant b :=
  List.filter_append a b

/-- Tokens can be parsed in two parts wherever the loop over a document's statements passes from one
part to the other. -/
theorem parse_split (a b : List Token)
    (h : Reaches maxDepth 0 (significant (a ++ b)) (significant b)) :
    (parse (a ++ b)).statements = (parse a).statements ++ (parse b).statements ∧
      (Parse.statements maxDepth (significant (a ++ b))).depthLimited =
        ((Parse.statements maxDepth (significant a)).depthLimited ||
          (Parse.statements maxDepth (significant b)).depthLimited) := by
  rw [significant_append] at h
  simp only [parse, significant_append, statements_eq_body, h.body_append]
  exact ⟨rfl, rfl⟩

/-- The tokens of `state A `. -/
def stateTokens : List Token :=
  [⟨.keyword (.block .state), "state", ⟨1, 1⟩⟩, ⟨.whitespace, " ", ⟨1, 6⟩⟩,
    ⟨.identifier, "A", ⟨1, 7⟩⟩, ⟨.whitespace, " ", ⟨1, 8⟩⟩]

/-- The tokens of `hook B`, behind those of a state. -/
def hookTokens : List Token :=
  [⟨.keyword .hook, "hook", ⟨1, 9⟩⟩, ⟨.whitespace, " ", ⟨1, 13⟩⟩, ⟨.identifier, "B", ⟨1, 14⟩⟩,
    ⟨.eof, "", ⟨1, 15⟩⟩]

/-- The attributes of the state end where the hook starts. -/
theorem parse_split_state_hook :
    Reaches maxDepth 0 (significant (stateTokens ++ hookTokens)) (significant hookTokens) ∧
      (parse (stateTokens ++ hookTokens)).statements =
        (parse stateTokens).statements ++ (parse hookTokens).statements := by
  have h : Reaches maxDepth 0 (significant (stateTokens ++ hookTokens)) (significant hookTokens) :=
    .single ⟨_, _, rfl, rfl, rfl⟩
  exact ⟨h, (parse_split stateTokens hookTokens h).1⟩

end Folio.Program
