import Folio.Proofs.Lookahead

/-! Readings: how the parser goes through the tokens of a body, statement by statement. A reading says
for each token that was passed in which body it stood, and all that is proved about what the parser
makes of tokens is proved along it. -/

namespace Folio.Parse
open Token (Kind)
open Heading

variable {limit : Option Nat} {depth : Nat} {t : Token}
  {ts after rest other heading close : List Token} {node : Node} {header : Header} {name : String} {attributes : Attributes}

/-- A statement up to its body: either it has none, or the brace that opens it was passed. -/
inductive Start where
  | leaf (node : Node)
  | block (header : Header) (name : String) (attributes : Attributes)

/-- The statement that a token opens, up to its body. -/
def start (t : Token) (ts : List Token) : Option (Start × List Token) :=
  match opening t ts with
  | none => none
  | some (.whole node, after) => some (.leaf node, after)
  | some (.construct header name attributes, after) =>
    if nextKind after = .symbol .leftBrace then some (.block header name attributes, after.tail)
    else some (.leaf (.construct header name attributes [] t.location), afterHeading header after)

theorem start_whole (h : opening t ts = some (.whole node, after)) :
    start t ts = some (.leaf node, after) := by
  rw [start, h]

theorem start_bare (h : opening t ts = some (.construct header name attributes, after))
    (hb : nextKind after ≠ .symbol .leftBrace) :
    start t ts = some (.leaf (.construct header name attributes [] t.location),
      afterHeading header after) := by
  rw [start, h]
  exact if_neg hb

theorem start_block {brace : Token}
    (h : opening t ts = some (.construct header name attributes, brace :: after))
    (hb : brace.kind = .symbol .leftBrace) :
    start t ts = some (.block header name attributes, after) := by
  rw [start, h]
  exact if_pos hb

/-- What a start comes from. -/
theorem start_cases {s : Start} (h : start t ts = some (s, after)) :
    (∃ node, s = .leaf node ∧ opening t ts = some (.whole node, after)) ∨
      (∃ header name attributes rest, s = .leaf (.construct header name attributes [] t.location) ∧
        nextKind rest ≠ .symbol .leftBrace ∧ after = afterHeading header rest ∧
        opening t ts = some (.construct header name attributes, rest)) ∨
      ∃ header name attributes brace, s = .block header name attributes ∧
        brace.kind = .symbol .leftBrace ∧
        opening t ts = some (.construct header name attributes, brace :: after) := by
  rw [start] at h
  split at h
  · cases h
  · next node rest ho =>
    cases h
    exact .inl ⟨node, rfl, ho⟩
  · next header name attributes rest ho =>
    split at h
    · next hb =>
      obtain ⟨brace, rest, rfl, hb⟩ := exists_cons_of_nextKind hb (by simp)
      cases h
      exact .inr (.inr ⟨header, name, attributes, brace, rfl, hb, ho⟩)
    · next hb =>
      cases h
      exact .inr (.inl ⟨header, name, attributes, rest, rfl, hb, rfl, ho⟩)

theorem start_some (ho : t.kind.opensConstruct = true) (ts : List Token) :
    ∃ s after, start t ts = some (s, after) := by
  obtain ⟨o, after, h⟩ : ∃ o after, opening t ts = some (o, after) := opening_some ho
  cases o with
  | whole node => exact ⟨_, _, start_whole h⟩
  | construct header name attributes =>
    by_cases hb : nextKind after = .symbol .leftBrace
    · obtain ⟨brace, block, rfl, hb⟩ := exists_cons_of_nextKind hb (by simp)
      exact ⟨_, _, start_block h hb⟩
    · exact ⟨_, _, start_bare h hb⟩

theorem endsBody_of_opens (ho : t.kind.opensConstruct = true) : endsBody depth t.kind = false := by
  cases hk : t.kind <;> simp_all [endsBody, Kind.opensConstruct]

theorem opens_of_opening {o : Heading.Opening} (h : opening t ts = some (o, after)) :
    t.kind.opensConstruct = true := by
  cases ho : t.kind.opensConstruct with
  | true => rfl
  | false =>
    rw [opening_none ho] at h
    cases h

/-- A statement without a body adds its node. -/
theorem body_leaf (hd : tooDeep limit depth = false) (hs : start t ts = some (.leaf node, after)) :
    body limit depth (t :: ts) = (body limit depth after).prepend [node] false := by
  obtain ⟨_, ⟨⟩, ho⟩ | ⟨header, name, attributes, rest, ⟨⟩, hb, rfl, ho⟩ | ⟨_, _, _, _, ⟨⟩, _⟩ :=
    start_cases hs
  · exact body_whole (endsBody_of_opens (opens_of_opening ho)) hd ho
  · refine body_bare (endsBody_of_opens (opens_of_opening ho)) hd ho ?_
    intro brace hbrace
    cases rest with
    | nil => cases hbrace
    | cons u rest =>
      cases hbrace
      exact hb

/-- A statement with a body adds a node with what is parsed in the body. -/
theorem body_open (hd : tooDeep limit depth = false)
    (hs : start t ts = some (.block header name attributes, after)) :
    body limit depth (t :: ts) =
      (body limit depth (afterBody header (body limit (depth + 1) after).rest)).prepend
        [.construct header name attributes (body limit (depth + 1) after).statements t.location]
        (body limit (depth + 1) after).depthLimited := by
  obtain ⟨_, ⟨⟩, _⟩ | ⟨_, _, _, _, ⟨⟩, _⟩ | ⟨_, _, _, brace, ⟨⟩, hb, ho⟩ := start_cases hs
  exact body_block (endsBody_of_opens (opens_of_opening ho)) hd ho hb

/-- Tokens that the statement opened by `t` may take. -/
def TakenBy (t : Token) (taken : List Token) : Prop := ∀ k, t.kind = .keyword k → Passed k taken

theorem TakenBy.append {taken more : List Token} (h : TakenBy t taken) (h' : TakenBy t more) :
    TakenBy t (taken ++ more) :=
  fun k hk => (h k hk).append (h' k hk)

theorem opening_takes {o : Heading.Opening} (h : opening t ts = some (o, after)) :
    ∃ heading, TakenBy t heading ∧ ts = heading ++ after ∧
      ∀ rest, peek rest = peek after → opening t (heading ++ rest) = some (o, rest) := by
  have ho := opens_of_opening h
  cases hk : t.kind with
  | keyword k =>
    rw [hk] at ho
    obtain ⟨f, hf, hopen⟩ := takes_opening t.location ho
    have hall (ts : List Token) : opening t ts = some (f ts) := by
      rw [opening, hk]
      exact hopen ts
    obtain ⟨heading, hp, hts, hread⟩ := hf ts
    have hts' : f ts = (o, after) := Option.some.inj ((hall ts).symm.trans h)
    rw [hts'] at hts hread
    refine ⟨heading, ?_, hts, fun rest hr => by rw [hall, hread rest hr]⟩
    intro k' hk'
    cases hk.symm.trans hk'
    exact hp
  | _ => simp [hk, Kind.opensConstruct] at ho

theorem exists_takenBy {α : Type} {f : List Token → α × List Token} (hf : ∀ k, Takes k f) (t : Token)
    (ts : List Token) :
    ∃ taken, TakenBy t taken ∧ ts = taken ++ (f ts).2 ∧
      ∀ rest, peek rest = peek (f ts).2 → f (taken ++ rest) = ((f ts).1, rest) := by
  obtain ⟨k, hk⟩ : ∃ k, ∀ k', t.kind = .keyword k' → k = k' := by
    cases ht : t.kind with
    | keyword k => exact ⟨k, fun k' hk' => by cases hk'; rfl⟩
    | _ => exact ⟨.source, nofun⟩
  obtain ⟨taken, hp, hts, hread⟩ := hf k ts
  exact ⟨taken, fun k' hk' => hk k' hk' ▸ hp, hts, hread⟩

theorem takes_afterHeading {k : Keyword} (header : Header) :
    Takes k fun ts => ((), afterHeading header ts) := by
  cases header with
  | type => exact takes_semicolon ()
  | _ => exact Takes.pure ()

theorem takes_afterBody {k : Keyword} (header : Header) :
    Takes k fun ts => ((), afterBody header ts) := by
  have hclose : Takes k fun ts => ((), skip (.symbol .rightBrace) ts) := takes_skip (by simp) rfl
  cases header with
  | type => exact hclose.bind takes_semicolon
  | _ => exact hclose

/-- The tokens of a statement without a body, after its keyword and in front of `after`. -/
structure LeafHeading (t : Token) (heading : List Token) (node : Node) (after : List Token) :
    Prop where
  taken : TakenBy t heading
  read : ∀ rest, peek rest = peek after → start t (heading ++ rest) = some (.leaf node, rest)

/-- The tokens of a statement between its keyword and its body. -/
structure BlockHeading (t : Token) (heading : List Token) (header : Header) (name : String)
    (attributes : Attributes) : Prop where
  taken : TakenBy t heading
  read : ∀ rest, start t (heading ++ rest) = some (.block header name attributes, rest)

/-- The tokens between the body of a statement and `after`. -/
structure Closing (t : Token) (header : Header) (close after : List Token) : Prop where
  taken : TakenBy t close
  read : ∀ rest, peek rest = peek after → afterBody header (close ++ rest) = rest

theorem exists_leafHeading (h : start t ts = some (.leaf node, after)) :
    ∃ heading, ts = heading ++ after ∧ LeafHeading t heading node after := by
  obtain ⟨_, ⟨⟩, ho⟩ | ⟨header, name, attributes, rest, ⟨⟩, hb, rfl, ho⟩ | ⟨_, _, _, _, ⟨⟩, _⟩ :=
    start_cases h
  · obtain ⟨heading, htaken, hts, hread⟩ := opening_takes ho
    exact ⟨heading, hts, htaken, fun rest hr => start_whole (hread rest hr)⟩
  · obtain ⟨heading, htaken, hts, hread⟩ := opening_takes ho
    obtain ⟨semi, hsemi, hrest, hsread⟩ := exists_takenBy (fun _ => takes_afterHeading header) t rest
    refine ⟨heading ++ semi, by rw [List.append_assoc, ← hrest, ← hts], htaken.append hsemi, ?_⟩
    intro more hm
    -- The semicolon is taken in front of `more` as well, and no brace comes up in its place.
    have hnext : peek (semi ++ more) = peek rest := by
      rw [hrest]
      exact peek_append_congr hm semi
    have hafter : afterHeading header (semi ++ more) = more := congrArg Prod.snd (hsread more hm)
    rw [List.append_assoc, start_bare (hread _ hnext) (nextKind_congr hnext ▸ hb), hafter]

theorem exists_blockHeading (h : start t ts = some (.block header name attributes, after)) :
    ∃ heading, ts = heading ++ after ∧ BlockHeading t heading header name attributes := by
  obtain ⟨_, ⟨⟩, _⟩ | ⟨_, _, _, _, ⟨⟩, _⟩ | ⟨_, _, _, brace, ⟨⟩, hb, ho⟩ := start_cases h
  obtain ⟨heading, htaken, hts, hread⟩ := opening_takes ho
  have hbrace : TakenBy t [brace] := fun _ _ => .of_kind hb (by simp) rfl
  refine ⟨heading ++ [brace], by simp [hts], htaken.append hbrace, fun rest => ?_⟩
  rw [List.append_assoc]
  exact start_block (hread (brace :: rest) rfl) hb

theorem length_start_le {s : Start} (h : start t ts = some (s, after)) :
    after.length ≤ ts.length := by
  cases s with
  | leaf node =>
    obtain ⟨heading, rfl, -⟩ := exists_leafHeading h
    simp
  | block header name attributes =>
    obtain ⟨heading, rfl, -⟩ := exists_blockHeading h
    simp

theorem exists_closing (t : Token) (header : Header) (ts : List Token) :
    ∃ close, ts = close ++ afterBody header ts ∧ Closing t header close (afterBody header ts) := by
  obtain ⟨close, htaken, hts, hread⟩ := exists_takenBy (fun _ => takes_afterBody header) t ts
  exact ⟨close, hts, htaken, fun rest hr => congrArg Prod.snd (hread rest hr)⟩

theorem LeafHeading.congr (h : LeafHeading t heading node after) (hp : peek other = peek after) :
    LeafHeading t heading node other :=
  ⟨h.taken, fun rest hr => h.read rest (hr.trans hp)⟩

theorem Closing.congr (h : Closing t header close after) (hp : peek other = peek after) :
    Closing t header close other :=
  ⟨h.taken, fun rest hr => h.read rest (hr.trans hp)⟩

/-- Tokens at a depth. -/
def atDepth (depth : Nat) (ts : List Token) : List (Nat × Token) := ts.map (depth, ·)

/-- Tokens without their depths. -/
def tokensOf (log : List (Nat × Token)) : List Token := log.map Prod.snd

variable {log inner : List (Nat × Token)} {nodes children : List Node} {limited deeper : Bool}

@[simp]
theorem tokensOf_nil : tokensOf [] = [] := rfl

@[simp]
theorem tokensOf_cons (e : Nat × Token) : tokensOf (e :: log) = e.2 :: tokensOf log := rfl

@[simp]
theorem tokensOf_append (log more : List (Nat × Token)) :
    tokensOf (log ++ more) = tokensOf log ++ tokensOf more :=
  List.map_append

@[simp]
theorem tokensOf_atDepth : tokensOf (atDepth depth ts) = ts := by
  simp [tokensOf, atDepth, Function.comp_def]

theorem tokensOf_leaf : tokensOf ((depth, t) :: (atDepth depth heading ++ log)) ++ rest =
    t :: (heading ++ (tokensOf log ++ rest)) := by
  simp

theorem tokensOf_block :
    tokensOf ((depth, t) :: (atDepth depth heading ++ (inner ++ (atDepth depth close ++ log)))) ++ rest =
      t :: (heading ++ (tokensOf inner ++ (close ++ (tokensOf log ++ rest)))) := by
  simp

/-- The statements of a body at a depth are read from tokens, each of which is noted with the depth of
the body that it stands in, and `rest` is left. -/
inductive Reading (limit : Option Nat) :
    Nat → List (Nat × Token) → List Token → List Node → Bool → Prop where
  | done {depth : Nat} {rest : List Token} (he : endsBody depth (nextKind rest) = true) :
      Reading limit depth [] rest [] false
  /-- The keyword of a statement that is nested too deep. -/
  | deep {depth : Nat} {t : Token} {log : List (Nat × Token)} {rest : List Token}
      {nodes : List Node} {limited : Bool} (ho : t.kind.opensConstruct = true)
      (hd : tooDeep limit depth = true) (more : Reading limit depth log rest nodes limited) :
      Reading limit depth ((depth, t) :: log) rest nodes true
  | skip {depth : Nat} {t : Token} {log : List (Nat × Token)} {rest : List Token}
      {nodes : List Node} {limited : Bool} (he : endsBody depth t.kind = false)
      (ho : t.kind.opensConstruct = false) (more : Reading limit depth log rest nodes limited) :
      Reading limit depth ((depth, t) :: log) rest nodes limited
  | leaf {depth : Nat} {t : Token} {heading : List Token} {node : Node} {log : List (Nat × Token)}
      {rest : List Token} {nodes : List Node} {limited : Bool} (hd : tooDeep limit depth = false)
      (hs : LeafHeading t heading node (tokensOf log ++ rest))
      (more : Reading limit depth log rest nodes limited) :
      Reading limit depth ((depth, t) :: (atDepth depth heading ++ log)) rest (node :: nodes) limited
  | block {depth : Nat} {t : Token} {heading close : List Token} {header : Header} {name : String}
      {attributes : Attributes} {inner log : List (Nat × Token)} {rest : List Token}
      {children nodes : List Node} {deeper limited : Bool} (hd : tooDeep limit depth = false)
      (hs : BlockHeading t heading header name attributes)
      (body : Reading limit (depth + 1) inner (close ++ (tokensOf log ++ rest)) children deeper)
      (hc : Closing t header close (tokensOf log ++ rest))
      (more : Reading limit depth log rest nodes limited) :
      Reading limit depth
        ((depth, t) :: (atDepth depth heading ++ (inner ++ (atDepth depth close ++ log)))) rest
        (.construct header name attributes children t.location :: nodes) (deeper || limited)

/-- What is read is what the parser comes to. -/
theorem Reading.body_eq (h : Reading limit depth log rest nodes limited) :
    body limit depth (tokensOf log ++ rest) = ⟨nodes, limited, rest⟩ := by
  induction h with
  | @done depth rest he =>
    cases rest with
    | nil => simp
    | cons t rest => exact body_end he
  | deep ho hd _ ih =>
    rw [tokensOf_cons, List.cons_append, body_deep (endsBody_of_opens ho) ho hd, ih]
    rfl
  | skip he ho _ ih => rw [tokensOf_cons, List.cons_append, body_skip he ho, ih]
  | leaf hd hs _ ih =>
    rw [tokensOf_leaf, body_leaf hd (hs.read _ rfl), ih]
    simp [Outcome.prepend]
  | block hd hs _ hc _ ihbody ih =>
    rw [tokensOf_block, body_open hd (hs.read _), ihbody, hc.read _ rfl, ih]
    simp [Outcome.prepend]

/-- Every body has a reading. -/
theorem exists_reading (limit : Option Nat) (depth : Nat) (ts : List Token) :
    ∃ log rest nodes limited, ts = tokensOf log ++ rest ∧
      Reading limit depth log rest nodes limited := by
  by_cases he : endsBody depth (nextKind ts) = true
  · exact ⟨[], ts, [], false, rfl, .done he⟩
  cases ts with
  | nil => simp [nextKind, endsBody] at he
  | cons t ts =>
    rw [nextKind_cons, Bool.not_eq_true] at he
    by_cases ho : t.kind.opensConstruct = true
    · cases hd : tooDeep limit depth with
      | true =>
        obtain ⟨log, rest, nodes, limited, rfl, more⟩ := exists_reading limit depth ts
        exact ⟨(depth, t) :: log, rest, nodes, true, rfl, .deep ho hd more⟩
      | false =>
        obtain ⟨s, after, hs⟩ := start_some ho ts
        cases s with
        | leaf node =>
          obtain ⟨heading, rfl, hleaf⟩ := exists_leafHeading hs
          obtain ⟨log, rest, nodes, limited, rfl, more⟩ := exists_reading limit depth after
          exact ⟨_, rest, _, limited, by simp, .leaf hd hleaf more⟩
        | block header name attributes =>
          obtain ⟨heading, rfl, hblock⟩ := exists_blockHeading hs
          obtain ⟨inner, stop, children, deeper, rfl, body⟩ := exists_reading limit (depth + 1) after
          obtain ⟨close, hstop, hclose⟩ := exists_closing t header stop
          have hle := length_afterBody_le header stop
          obtain ⟨log, rest, nodes, limited, hrest, more⟩ :=
            exists_reading limit depth (afterBody header stop)
          rw [hrest] at hstop hclose
          subst hstop
          exact ⟨_, rest, _, _, by simp, .block hd hblock body hclose more⟩
    · rw [Bool.not_eq_true] at ho
      obtain ⟨log, rest, nodes, limited, rfl, more⟩ := exists_reading limit depth ts
      exact ⟨(depth, t) :: log, rest, nodes, limited, rfl, .skip he ho more⟩
termination_by ts.length
decreasing_by all_goals subst_vars; simp only [List.length_cons, List.length_append]; omega

theorem exists_statements (limit : Option Nat) (ts : List Token) :
    ∃ log rest nodes limited, ts = tokensOf log ++ rest ∧
      Reading limit 0 log rest nodes limited ∧ statements limit ts = ⟨nodes, limited, rest⟩ := by
  obtain ⟨log, rest, nodes, limited, rfl, hread⟩ := exists_reading limit 0 ts
  exact ⟨log, rest, nodes, limited, rfl, hread, hread.body_eq⟩

/-- A reading does not depend on what is left, but for the next token. -/
theorem Reading.frame (h : Reading limit depth log rest nodes limited) (hp : peek other = peek rest) :
    Reading limit depth log other nodes limited := by
  induction h generalizing other with
  | done he => exact .done (nextKind_congr hp ▸ he)
  | deep ho hd _ ih => exact .deep ho hd (ih hp)
  | skip he ho _ ih => exact .skip he ho (ih hp)
  | leaf hd hs _ ih => exact .leaf hd (hs.congr (peek_append_congr hp _)) (ih hp)
  | @block _ _ _ _ _ _ _ _ log _ _ _ _ _ hd hs _ hc _ ihbody ih =>
    have hnext := peek_append_congr hp (tokensOf log)
    exact .block hd hs (ihbody (peek_append_congr hnext _)) (hc.congr hnext) (ih hp)

/-- What is left starts where the body ends. -/
theorem Reading.ends (h : Reading limit depth log rest nodes limited) :
    endsBody depth (nextKind rest) = true := by
  induction h with
  | done he => exact he
  | deep _ _ _ ih | skip _ _ _ ih | leaf _ _ _ ih => exact ih
  | block _ _ _ _ _ _ ih => exact ih

theorem Reading.nextKind_rest (h : Reading limit 0 log rest nodes limited) : nextKind rest = .eof := by
  simpa [endsBody] using h.ends

theorem not_eof_of_endsBody (he : endsBody depth t.kind = false) : t.kind ≠ .eof := by
  intro h
  simp [endsBody, h] at he

theorem not_eof_of_opens (ho : t.kind.opensConstruct = true) : t.kind ≠ .eof := by
  intro h
  rw [h] at ho
  cases ho

theorem TakenBy.not_eof {taken : List Token} (h : TakenBy t taken)
    (ho : t.kind.opensConstruct = true) : ∀ u ∈ taken, u.kind ≠ .eof := by
  cases hk : t.kind with
  | keyword k => exact (h k hk).inside
  | _ => simp [hk, Kind.opensConstruct] at ho

theorem opens_of_start {s : Start} (h : start t ts = some (s, after)) :
    t.kind.opensConstruct = true := by
  obtain ⟨_, _, ho⟩ | ⟨_, _, _, _, _, _, _, ho⟩ | ⟨_, _, _, _, _, _, ho⟩ := start_cases h
  all_goals exact opens_of_opening ho

/-- Nothing is read behind the first `eof`. -/
theorem Reading.not_eof (h : Reading limit depth log rest nodes limited) :
    ∀ u ∈ tokensOf log, u.kind ≠ .eof := by
  induction h with
  | done => simp
  | deep ho _ _ ih => exact List.forall_mem_cons.mpr ⟨not_eof_of_opens ho, ih⟩
  | skip he _ _ ih => exact List.forall_mem_cons.mpr ⟨not_eof_of_endsBody he, ih⟩
  | leaf _ hs _ ih =>
    have ho := opens_of_start (hs.read _ rfl)
    simp only [tokensOf_cons, tokensOf_append, tokensOf_atDepth, List.forall_mem_cons,
      List.forall_mem_append]
    exact ⟨not_eof_of_opens ho, hs.taken.not_eof ho, ih⟩
  | block _ hs _ hc _ ihbody ih =>
    have ho := opens_of_start (hs.read [])
    simp only [tokensOf_cons, tokensOf_append, tokensOf_atDepth, List.forall_mem_cons,
      List.forall_mem_append]
    exact ⟨not_eof_of_opens ho, hs.taken.not_eof ho, ihbody,
      hc.taken.not_eof ho, ih⟩

end Folio.Parse
