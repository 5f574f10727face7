import Folio.Tree.Parse

/-! The parser's loop as equations. What a loop parses does not depend on what was parsed before it,
so each equation says what one token adds to what the tokens after it come to. -/

namespace Folio

/-- The nodes that documents are parsed to. -/
def Node.IsStatement : Node → Prop
  | construct .. | imports .. | exports .. => True
  | element .. | text .. | expression .. => False

namespace Parse
open Token (Kind)

/-- What tokens come to at a depth, with nothing parsed before them. -/
def body (limit : Option Nat) (depth : Nat) (ts : List Token) : Outcome :=
  (statementsFrom limit depth [] false ts).val

/-- An outcome with the statements `done` parsed before it. -/
def Outcome.prepend (r : Outcome) (done : List Node) (limited : Bool) : Outcome :=
  ⟨done ++ r.statements, limited || r.depthLimited, r.rest⟩

theorem length_after_block_le (limit : Option Nat) (depth : Nat) (limited : Bool) (header : Header)
    (ts : List Token) :
    (afterBody header (statementsFrom limit depth [] limited ts).val.rest).length ≤ ts.length :=
  Nat.le_trans (length_afterBody_le header _) (statementsFrom limit depth [] limited ts).property

/-- The statements parsed so far and the flag are only carried along. -/
theorem statementsFrom_eq (limit : Option Nat) (depth : Nat) (done : List Node) (limited : Bool)
    (ts : List Token) :
    (statementsFrom limit depth done limited ts).val =
      (body limit depth ts).prepend done.reverse limited := by
  unfold body
  -- By the number of tokens: each branch hands what was parsed on to the call for what is left.
  match ts with
  | [] => simp [statementsFrom, Outcome.prepend]
  | t :: rest =>
    rw [statementsFrom, statementsFrom]
    by_cases he : endsBody depth t.kind = true
    · simp [he, Outcome.prepend]
    · simp only [he, Bool.false_eq_true, ↓reduceIte]
      split
      · dsimp only
        rw [statementsFrom_eq limit depth done true rest, statementsFrom_eq limit depth [] true rest]
        simp [Outcome.prepend]
      · split
        · dsimp only
          rw [statementsFrom_eq limit depth done limited rest]
          rfl
        · rename_i node after h
          have hl := length_opening_le h
          dsimp only at hl ⊢
          rw [statementsFrom_eq limit depth (node :: done) limited after,
            statementsFrom_eq limit depth [node] false after]
          simp [Outcome.prepend]
        · simp [Outcome.prepend]
        · rename_i header name attributes brace block h
          have hl := length_opening_le h
          split
          · have ha := length_after_block_le limit (depth + 1) limited header block
            have hb := length_after_block_le limit (depth + 1) false header block
            have hi := statementsFrom_eq limit (depth + 1) [] limited block
            dsimp only at hl ⊢
            rw [statementsFrom_eq limit depth (_ :: done) _
                (afterBody header (statementsFrom limit (depth + 1) [] limited block).val.rest),
              statementsFrom_eq limit depth [_] _
                (afterBody header (statementsFrom limit (depth + 1) [] false block).val.rest), hi]
            simp [Outcome.prepend, body, Bool.or_assoc]
          · have ha := length_afterHeading_le header (brace :: block)
            dsimp only at hl ⊢
            rw [statementsFrom_eq limit depth (_ :: done) limited
                (afterHeading header (brace :: block)),
              statementsFrom_eq limit depth [_] false (afterHeading header (brace :: block))]
            simp [Outcome.prepend]
termination_by ts.length
decreasing_by all_goals simp only [List.length_cons] at *; omega

variable {limit : Option Nat} {depth : Nat} {t : Token} {ts after : List Token}

theorem length_body_rest_le : (body limit depth ts).rest.length ≤ ts.length :=
  (statementsFrom limit depth [] false ts).property

@[simp]
theorem body_nil : body limit depth [] = ⟨[], false, []⟩ := by
  simp [body, statementsFrom]

theorem body_end (he : endsBody depth t.kind = true) :
    body limit depth (t :: ts) = ⟨[], false, t :: ts⟩ := by
  rw [body, statementsFrom]
  simp [he]

/-- The keyword of a construct that is nested too deep is passed over. -/
theorem body_deep (he : endsBody depth t.kind = false) (ho : t.kind.opensConstruct = true)
    (hd : tooDeep limit depth = true) :
    body limit depth (t :: ts) = (body limit depth ts).prepend [] true := by
  rw [body, statementsFrom]
  simp only [he, ho, hd, Bool.and_self, Bool.false_eq_true, ↓reduceIte]
  exact statementsFrom_eq limit depth [] true ts

theorem opening_none (ho : t.kind.opensConstruct = false) : opening t ts = none := by
  unfold opening
  split
  · rename_i k hk
    rw [hk] at ho
    cases k <;> first | rfl | cases ho
  · rfl

/-- A token that opens no construct is passed over. -/
theorem body_skip (he : endsBody depth t.kind = false) (ho : t.kind.opensConstruct = false) :
    body limit depth (t :: ts) = body limit depth ts := by
  rw [body, statementsFrom]
  simp only [he, ho, Bool.false_and, Bool.false_eq_true, ↓reduceIte]
  split
  · rfl
  all_goals
    rename_i h
    rw [opening_none ho] at h
    cases h

/-- A semicolon between statements is passed over, if the statement before it did not take it. -/
theorem body_skip_semicolon :
    body limit depth (Heading.skip (.symbol .semicolon) ts) = body limit depth ts := by
  cases ts with
  | nil => rfl
  | cons t ts =>
    rw [Heading.skip]
    split
    · next hk => rw [body_skip (by simp [endsBody, hk]) (by simp [hk, Kind.opensConstruct])]
    · rfl

/-- A statement without a body. -/
theorem body_whole {node : Node} (he : endsBody depth t.kind = false)
    (hd : tooDeep limit depth = false) (ho : opening t ts = some (.whole node, after)) :
    body limit depth (t :: ts) = (body limit depth after).prepend [node] false := by
  rw [body, statementsFrom]
  simp only [he, hd, Bool.and_false, Bool.false_eq_true, ↓reduceIte]
  split
  all_goals
    rename_i h
    rw [ho] at h
    cases h
  exact statementsFrom_eq limit depth [node] false after

/-- A construct with a body. -/
theorem body_block {header : Header} {name : String} {attributes : Attributes} {brace : Token}
    {block : List Token} (he : endsBody depth t.kind = false) (hd : tooDeep limit depth = false)
    (ho : opening t ts = some (.construct header name attributes, brace :: block))
    (hb : brace.kind = .symbol .leftBrace) :
    body limit depth (t :: ts) =
      (body limit depth (afterBody header (body limit (depth + 1) block).rest)).prepend
        [.construct header name attributes (body limit (depth + 1) block).statements t.location]
        (body limit (depth + 1) block).depthLimited := by
  rw [body, statementsFrom]
  simp only [he, hd, Bool.and_false, Bool.false_eq_true, ↓reduceIte]
  split
  all_goals
    rename_i h
    rw [ho] at h
    cases h
  simp only [hb, ↓reduceIte]
  exact statementsFrom_eq limit depth [_] _ _

/-- A construct without a body. -/
theorem body_bare {header : Header} {name : String} {attributes : Attributes}
    (he : endsBody depth t.kind = false) (hd : tooDeep limit depth = false)
    (ho : opening t ts = some (.construct header name attributes, after))
    (hb : ∀ brace ∈ after.head?, brace.kind ≠ .symbol .leftBrace) :
    body limit depth (t :: ts) =
      (body limit depth (afterHeading header after)).prepend
        [.construct header name attributes [] t.location] false := by
  rw [body, statementsFrom]
  simp only [he, hd, Bool.and_false, Bool.false_eq_true, ↓reduceIte]
  split
  all_goals
    rename_i h
    rw [ho] at h
    cases h
  · cases header <;> simp [afterHeading, Heading.skip, Outcome.prepend]
  · simp only [hb _ rfl, ↓reduceIte]
    exact statementsFrom_eq limit depth [_] _ _

theorem opening_some (ho : t.kind.opensConstruct = true) :
    ∃ o after, opening t ts = some (o, after) := by
  unfold opening
  cases hk : t.kind with
  | keyword k =>
    rw [hk] at ho
    cases k with
    | source | renamed | reserved => cases ho
    | _ => exact ⟨_, _, rfl⟩
  | _ => simp [hk, Kind.opensConstruct] at ho

theorem isStatement_of_opening {node : Node} (h : opening t ts = some (.whole node, after)) :
    node.IsStatement := by
  unfold opening at h
  split at h
  · rename_i k hk
    cases k with
    | type =>
      simp only [Heading.opening, Heading.type, Option.some.injEq] at h
      split at h
      · cases h
      · split at h
        · cases h
          trivial
        · cases h
    | imports | exports =>
      cases h
      trivial
    | _ => cases h
  · cases h

/-- What one token does: it ends the body, it is passed over, or it opens a statement. -/
theorem body_cons (limit : Option Nat) (depth : Nat) (t : Token) (ts : List Token) :
    body limit depth (t :: ts) = ⟨[], false, t :: ts⟩ ∨
      (∃ limited, body limit depth (t :: ts) = (body limit depth ts).prepend [] limited) ∨
      ∃ node after limited, node.IsStatement ∧ after.length ≤ ts.length ∧
        body limit depth (t :: ts) = (body limit depth after).prepend [node] limited := by
  cases he : endsBody depth t.kind with
  | true => exact .inl (body_end he)
  | false =>
    right
    cases ho : t.kind.opensConstruct with
    | false => exact .inl ⟨false, by rw [body_skip he ho]; rfl⟩
    | true =>
      cases hd : tooDeep limit depth with
      | true => exact .inl ⟨true, body_deep he ho hd⟩
      | false =>
        right
        obtain ⟨o, after, hopen⟩ : ∃ o after, opening t ts = some (o, after) := opening_some ho
        have hle := length_opening_le hopen
        cases o with
        | whole node =>
          exact ⟨node, after, false, isStatement_of_opening hopen, hle, body_whole he hd hopen⟩
        | construct header name attributes =>
          by_cases hb : ∀ brace ∈ after.head?, brace.kind ≠ .symbol .leftBrace
          · exact ⟨.construct header name attributes [] t.location, afterHeading header after, false,
              trivial, Nat.le_trans (length_afterHeading_le header after) hle,
              body_bare he hd hopen hb⟩
          · cases after with
            | nil => simp at hb
            | cons brace block =>
              have hb : brace.kind = .symbol .leftBrace := by simpa using hb
              refine ⟨_, _, _, ?_, ?_, body_block he hd hopen hb⟩
              · trivial
              · have hrest : (body limit (depth + 1) block).rest.length ≤ block.length :=
                  length_body_rest_le
                have hafter := length_afterBody_le header (body limit (depth + 1) block).rest
                simp only [List.length_cons] at hle
                omega

/-- Only statements are parsed. -/
theorem isStatement_of_mem_body {n : Node} (hn : n ∈ (body limit depth ts).statements) :
    n.IsStatement := by
  induction hlen : ts.length using Nat.strongRecOn generalizing ts with
  | ind k ih =>
    cases ts with
    | nil => simp at hn
    | cons t ts =>
      rcases body_cons limit depth t ts with h | ⟨limited, h⟩ | ⟨node, after, limited, hnode, hle, h⟩
      · simp [h] at hn
      · rw [h] at hn
        exact ih ts.length (by simp [← hlen]) (by simpa [Outcome.prepend] using hn) rfl
      · rw [h] at hn
        rcases List.mem_cons.mp hn with rfl | hn
        · exact hnode
        · exact ih after.length (by simp only [List.length_cons] at hlen; omega) hn rfl

theorem statements_eq_body : statements limit ts = body limit 0 ts := rfl

end Parse

end Folio
