import Folio.Proofs.Readings

/-! The parser with its counters: one cursor that all loops move, with the number of open bodies, and
the number of open braces in the definition of a type. A counter that would go below zero is a fault,
and so are loops that take more turns than they are given. -/

namespace Folio.Parse
open Token (Kind)
open Heading

inductive Fault where
  | underflow
  | unfinished
  deriving DecidableEq

/-- Takes one off a counter. -/
def down : Nat → Except Fault Nat
  | 0 => .error .underflow
  | n + 1 => .ok n

/-- Takes the texts of a type definition, and counts its open braces. -/
def countedDefinition (depth : Nat) (done : List String) :
    List Token → Except Fault (List String × List Token)
  | [] => .ok (done.reverse, [])
  | t :: ts =>
    if t.kind = .eof then .ok (done.reverse, t :: ts)
    else if t.kind = .symbol .leftBrace then countedDefinition (depth + 1) (t.text :: done) ts
    else if t.kind = .symbol .rightBrace && depth = 0 then .ok (done.reverse, t :: ts)
    else if t.kind = .symbol .rightBrace then do
      let depth ← down depth
      countedDefinition depth (t.text :: done) ts
    else if depth = 0 && (t.kind = .symbol .semicolon || t.kind.opensConstruct) then
      .ok (done.reverse, t :: ts)
    else countedDefinition depth (t.text :: done) ts

/-- Takes the rest of a type after its name. -/
def countedType (location : Location) (name : String) (ts : List Token) :
    Except Fault (Opening × List Token) :=
  if nextKind ts = .symbol .assign then do
    let (texts, rest) ← countedDefinition 0 [] ts.tail
    let definition := " ".intercalate texts
    return (.whole (.construct (.type (some definition)) name .empty [] location),
      skip (.symbol .semicolon) rest)
  else return (.construct (.type none) name .empty, ts)

def countedOpening (t : Token) (ts : List Token) : Except Fault (Option (Opening × List Token)) :=
  if t.kind = .keyword .type then do
    let (name, rest) := name ts
    return some (← countedType t.location name rest)
  else return opening t ts

/-- Where a parser is: the tokens that it has not passed, how many bodies are open, and whether some
statement was nested too deep. -/
structure Cursor where
  rest : List Token
  depth : Nat
  depthLimited : Bool

/-- Moves the cursor over statements, after the statements `done`, last statement first. Inside a body
the loop ends before a closing brace. At most `turns` turns follow one another in it, and the turns
inside a body are counted on from those before it. -/
def loop (limit : Option Nat) (inBody : Bool) (done : List Node) (c : Cursor) :
    (turns : Nat) → Except Fault (List Node × Cursor)
  | 0 => .error .unfinished
  | turns + 1 =>
    match c.rest with
    | [] => .ok (done.reverse, c)
    | t :: ts =>
      if t.kind = .eof || (inBody && t.kind = .symbol .rightBrace) then .ok (done.reverse, c)
      else if t.kind.opensConstruct && tooDeep limit c.depth then
        loop limit inBody done { c with rest := ts, depthLimited := true } turns
      else do
        match ← countedOpening t ts with
        | none => loop limit inBody done { c with rest := ts } turns
        | some (.whole node, after) => loop limit inBody (node :: done) { c with rest := after } turns
        | some (.construct header name attributes, after) =>
          if nextKind after = .symbol .leftBrace then
            let (children, inner) ←
              loop limit true [] { c with rest := after.tail, depth := c.depth + 1 } turns
            let depth ← down inner.depth
            let node := .construct header name attributes children t.location
            loop limit inBody (node :: done)
              { inner with rest := afterBody header inner.rest, depth := depth } turns
          else
            let node := .construct header name attributes [] t.location
            loop limit inBody (node :: done) { c with rest := afterHeading header after } turns

/-- A parser that was just made. -/
def Cursor.start (tokens : List Token) : Cursor := ⟨Program.significant tokens, 0, false⟩

/-- Parses what is left. -/
def Cursor.program (c : Cursor) (turns : Nat) : Except Fault (List Node × Cursor) :=
  loop maxDepth false [] c turns

theorem countedDefinition_eq (depth : Nat) (done : List String) (ts : List Token) :
    countedDefinition depth done ts = .ok (definitionFrom depth done ts) := by
  induction ts generalizing depth done with
  | nil => rw [countedDefinition, definitionFrom]
  | cons t ts ih =>
    rw [countedDefinition]
    by_cases he : t.kind = .eof
    · have hnext : nextKind (t :: ts) = .eof := he
      rw [if_pos he, definitionFrom_eof hnext]
    rw [if_neg he]
    by_cases hl : t.kind = .symbol .leftBrace
    · rw [if_pos hl, ih, definitionFrom_open hl]
    rw [if_neg hl]
    by_cases hr : t.kind = .symbol .rightBrace
    · -- Outside all braces the definition ends here, so the counter is taken down from above zero.
      cases depth with
      | zero => simp [hr, definitionFrom_end]
      | succ depth =>
        rw [definitionFrom_close hr, ← ih]
        simp [hr, down, bind, Except.bind]
    · simp only [hr, decide_false, Bool.false_and, Bool.false_eq_true, if_false]
      by_cases hd : depth = 0 ∧ Grammar.endsDefinition t.kind = true
      · obtain ⟨rfl, hd⟩ := hd
        rw [definitionFrom_end (.inr hd)]
        exact if_pos (by simpa [Grammar.endsDefinition] using hd)
      · rw [definitionFrom_piece he hl hr fun h => by simpa using fun h' => hd ⟨h, h'⟩, ← ih]
        exact if_neg (by simpa [Grammar.endsDefinition] using hd)

theorem countedType_eq (location : Location) (name : String) (ts : List Token) :
    countedType location name ts = .ok (typeEnd location name ts) := by
  rw [countedType, typeEnd, countedDefinition_eq]
  split <;> rfl

theorem countedOpening_eq (t : Token) (ts : List Token) :
    countedOpening t ts = .ok (opening t ts) := by
  rw [countedOpening]
  split
  · next ht =>
    simp only [opening, ht, Heading.opening, type_eq, countedType_eq]
    rfl
  · rfl

section Loop
variable {limit : Option Nat} {depth turns : Nat} {before : Bool} {done : List Node} {t : Token}
  {ts after rest : List Token}

theorem loop_end (he : endsBody depth (nextKind rest) = true) :
    loop limit (0 < depth) done ⟨rest, depth, before⟩ (turns + 1) =
      .ok (done.reverse, ⟨rest, depth, before⟩) := by
  rw [loop]
  cases rest with
  | nil => rfl
  | cons t rest => exact if_pos he

theorem loop_deep (ho : t.kind.opensConstruct = true) (hd : tooDeep limit depth = true) :
    loop limit (0 < depth) done ⟨t :: ts, depth, before⟩ (turns + 1) =
      loop limit (0 < depth) done ⟨ts, depth, true⟩ turns := by
  have he : endsBody depth t.kind = false := endsBody_of_opens ho
  rw [endsBody] at he
  rw [loop]
  simp only [he, ho, hd, Bool.and_self, Bool.false_eq_true, if_true, if_false]

theorem loop_skip (he : endsBody depth t.kind = false) (ho : t.kind.opensConstruct = false) :
    loop limit (0 < depth) done ⟨t :: ts, depth, before⟩ (turns + 1) =
      loop limit (0 < depth) done ⟨ts, depth, before⟩ turns := by
  rw [endsBody] at he
  rw [loop]
  simp only [he, ho, countedOpening_eq, opening_none ho, Bool.false_and, Bool.false_eq_true, if_false]
  rfl

theorem loop_leaf {node : Node} (hd : tooDeep limit depth = false)
    (hs : start t ts = some (.leaf node, after)) :
    loop limit (0 < depth) done ⟨t :: ts, depth, before⟩ (turns + 1) =
      loop limit (0 < depth) (node :: done) ⟨after, depth, before⟩ turns := by
  rw [loop]
  obtain ⟨_, ⟨⟩, ho⟩ | ⟨header, name, attributes, rest, ⟨⟩, hb, rfl, ho⟩ | ⟨_, _, _, _, ⟨⟩, _⟩ :=
    start_cases hs
  · have he : endsBody depth t.kind = false := endsBody_of_opens (opens_of_opening ho)
    rw [endsBody] at he
    simp only [he, hd, countedOpening_eq, ho, Bool.and_false, Bool.false_eq_true, if_false]
    rfl
  · have he : endsBody depth t.kind = false := endsBody_of_opens (opens_of_opening ho)
    rw [endsBody] at he
    simp only [he, hd, countedOpening_eq, ho, Bool.and_false, Bool.false_eq_true, if_false]
    exact if_neg hb

theorem loop_block {header : Header} {name : String} {attributes : Attributes} {children : List Node}
    {limited : Bool} (hd : tooDeep limit depth = false)
    (hs : start t ts = some (.block header name attributes, after))
    (hin : loop limit true [] ⟨after, depth + 1, before⟩ turns =
      .ok (children, ⟨rest, depth + 1, limited⟩)) :
    loop limit (0 < depth) done ⟨t :: ts, depth, before⟩ (turns + 1) =
      loop limit (0 < depth) (.construct header name attributes children t.location :: done)
        ⟨afterBody header rest, depth, limited⟩ turns := by
  rw [loop]
  obtain ⟨_, ⟨⟩, _⟩ | ⟨_, _, _, _, ⟨⟩, _⟩ | ⟨_, _, _, brace, ⟨⟩, hb, ho⟩ := start_cases hs
  have he : endsBody depth t.kind = false := endsBody_of_opens (opens_of_opening ho)
  rw [endsBody] at he
  simp only [he, hd, countedOpening_eq, ho, Bool.and_false, Bool.false_eq_true, if_false]
  simp only [bind, Except.bind, nextKind_cons, hb, if_true, List.tail_cons, hin, down]

end Loop

/-- The loop ends after at most as many turns as tokens are read, with the counter where it was. -/
theorem Reading.loop_eq {limit : Option Nat} {depth : Nat} {log : List (Nat × Token)}
    {rest : List Token} {nodes : List Node} {limited : Bool}
    (h : Reading limit depth log rest nodes limited) (before : Bool) (done : List Node) (turns : Nat)
    (ht : log.length < turns) :
    loop limit (0 < depth) done ⟨tokensOf log ++ rest, depth, before⟩ turns =
      .ok (done.reverse ++ nodes, ⟨rest, depth, before || limited⟩) := by
  induction h generalizing before done turns with
  | done he =>
    obtain ⟨turns, rfl⟩ := Nat.exists_eq_add_one.mpr (Nat.zero_lt_of_lt ht)
    simpa using loop_end he
  | deep ho hd _ ih =>
    obtain ⟨turns, rfl⟩ := Nat.exists_eq_add_one.mpr (Nat.zero_lt_of_lt ht)
    rw [tokensOf_cons, List.cons_append, loop_deep ho hd, ih true done turns (by simpa using ht)]
    simp
  | skip he ho _ ih =>
    obtain ⟨turns, rfl⟩ := Nat.exists_eq_add_one.mpr (Nat.zero_lt_of_lt ht)
    rw [tokensOf_cons, List.cons_append, loop_skip he ho, ih before done turns (by simpa using ht)]
  | leaf hd hs _ ih =>
    obtain ⟨turns, rfl⟩ := Nat.exists_eq_add_one.mpr (Nat.zero_lt_of_lt ht)
    simp only [List.length_cons, List.length_append] at ht
    rw [tokensOf_leaf, loop_leaf hd (hs.read _ rfl), ih before _ turns (by omega)]
    simp
  | block hd hs _ hc _ ihbody ih =>
    obtain ⟨turns, rfl⟩ := Nat.exists_eq_add_one.mpr (Nat.zero_lt_of_lt ht)
    simp only [List.length_cons, List.length_append] at ht
    -- The body gives the counter back one higher than it was before the brace.
    have hbody := ihbody before [] turns (by omega)
    simp only [Nat.zero_lt_succ, decide_true] at hbody
    rw [tokensOf_block, loop_block hd (hs.read _) hbody, hc.read _ rfl, ih _ _ turns (by omega)]
    simp [Bool.or_assoc]

/-- A new parser comes to its end on some tokens after at most `turns` turns: with these statements,
no fault, the cursor at the end and no body open. From there it parses nothing more. -/
structure Finishes (turns : Nat) (tokens : List Token) (nodes : List Node) (c : Cursor) : Prop where
  parsed : statements maxDepth (Program.significant tokens) = ⟨nodes, c.depthLimited, c.rest⟩
  counted : ∀ n, turns < n → (Cursor.start tokens).program n = .ok (nodes, c)
  closed : c.depth = 0
  atEnd : Program.atEnd c.rest = true
  again : ∀ n, 0 < n → c.program n = .ok ([], c)

theorem atEnd_of_nextKind {rest : List Token} (h : nextKind rest = .eof) :
    Program.atEnd rest = true := by
  cases rest with
  | nil => rfl
  | cons t rest =>
    have ht : t.kind = .eof := h
    simp [Program.atEnd, ht]

theorem Reading.finishes {log : List (Nat × Token)} {tokens rest : List Token} {nodes : List Node}
    {limited : Bool} (h : Reading maxDepth 0 log rest nodes limited)
    (hs : Program.significant tokens = tokensOf log ++ rest) :
    Finishes log.length tokens nodes ⟨rest, 0, limited⟩ := by
  have hend := h.nextKind_rest
  refine ⟨?_, ?_, rfl, atEnd_of_nextKind hend, ?_⟩
  · rw [hs, statements_eq_body, h.body_eq]
  · intro n hn
    rw [Cursor.program, Cursor.start, hs]
    simpa using h.loop_eq false [] n hn
  · intro n hn
    obtain ⟨n, rfl⟩ := Nat.exists_eq_add_one.mpr hn
    have hstop : endsBody 0 (nextKind rest) = true := by simp [endsBody, hend]
    exact loop_end hstop

theorem Finishes.mono {m n : Nat} {tokens : List Token} {nodes : List Node} {c : Cursor}
    (h : Finishes m tokens nodes c) (hmn : m ≤ n) : Finishes n tokens nodes c :=
  { h with counted := fun k hk => h.counted k (Nat.lt_of_le_of_lt hmn hk) }

theorem length_significant_le (tokens : List Token) :
    (Program.significant tokens).length ≤ tokens.length :=
  List.length_filter_le _ tokens

theorem significant_eof {last : Token} (hl : last.kind = .eof) (a b : List Token) :
    Program.significant (a ++ last :: b) =
      Program.significant a ++ last :: Program.significant b := by
  simp [Program.significant, hl, Kind.isTrivia]

/-- The parser reads up to the first `eof`, or to where the tokens stop. What comes after makes no
difference to the statements and the flag, and no counter goes below zero on the way. -/
theorem parse_up_to_eof (a b : List Token) (last : Token) (ha : ∀ t ∈ a, t.kind ≠ .eof)
    (hl : last.kind = .eof) :
    ∃ nodes limited, Finishes a.length a nodes ⟨[], 0, limited⟩ ∧
      Finishes a.length (a ++ last :: b) nodes ⟨last :: Program.significant b, 0, limited⟩ := by
  obtain ⟨log, rest, nodes, limited, hts, hread⟩ :=
    exists_reading maxDepth 0 (Program.significant a)
  have hmem : ∀ t ∈ tokensOf log ++ rest, t.kind ≠ .eof := by
    intro t ht
    rw [← hts] at ht
    exact ha t (List.mem_of_mem_filter ht)
  have hrest : rest = [] := by
    cases rest with
    | nil => rfl
    | cons t rest =>
      exact absurd hread.nextKind_rest (hmem t (by simp))
  subst hrest
  rw [List.append_nil] at hts
  have hlen : log.length ≤ a.length := by
    have hlog : log.length = (tokensOf log).length := by simp [tokensOf]
    rw [hlog, ← hts]
    exact length_significant_le a
  refine ⟨nodes, limited, (hread.finishes (by simpa using hts)).mono hlen, ?_⟩
  -- The same reading goes through in front of the end.
  have hnext : peek (last :: Program.significant b) = peek [] := peek_eof hl
  refine ((hread.frame hnext).finishes ?_).mono hlen
  rw [significant_eof hl, hts]

/-- Braces and brackets that are left open, and closed out of turn. -/
def unbalancedTokens : List Token :=
  (Token.scan "\x7d page P \x7b type T = \x7b \x7d \x7d ; hook h ( \x7d type U \x7b").dropLast

theorem parse_up_to_eof_unbalanced :
    (∀ t ∈ unbalancedTokens, t.kind ≠ .eof) ∧
      ∃ nodes limited, Finishes unbalancedTokens.length unbalancedTokens nodes ⟨[], 0, limited⟩ ∧
        Finishes unbalancedTokens.length (unbalancedTokens ++ ⟨.eof, "", ⟨1, 1⟩⟩ :: unbalancedTokens)
          nodes ⟨⟨.eof, "", ⟨1, 1⟩⟩ :: Program.significant unbalancedTokens, 0, limited⟩ := by
  have hinside : ∀ t ∈ unbalancedTokens, t.kind ≠ .eof := by decide +kernel
  exact ⟨hinside, parse_up_to_eof unbalancedTokens unbalancedTokens _ hinside rfl⟩

end Folio.Parse
