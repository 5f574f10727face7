import Folio.Proofs.NestingCap

/-! What becomes of constructs that are nested too deep. Only their keywords are taken out, and their
braces stay: the first brace that closes there closes the body around it, and what follows is read
further out. Constructs are cut off as a whole as long as no brace closes one of them. -/

namespace Folio

namespace Parse
open Token (Kind)
open Heading

variable {n depth : Nat} {log : List (Nat × Token)} {rest : List Token} {nodes : List Node}
  {limited : Bool} {limit : Option Nat} {t : Token}

/-! ### The levels of tokens -/

/-- The tokens of a list before its end. -/
def passed (ts after : List Token) : List Token := ts.take (ts.length - after.length)

theorem passed_append (ts after : List Token) : passed (ts ++ after) after = ts := by
  simp [passed]

/-- The tokens of a body and of all bodies in it, each with the depth of the body it stands in. -/
def levels (limit : Option Nat) (depth : Nat) (ts : List Token) : List (Nat × Token) :=
  match ts with
  | [] => []
  | t :: ts =>
    if endsBody depth t.kind then [] else
    if tooDeep limit depth then (depth, t) :: levels limit depth ts else
    match _h : start t ts with
    | none => (depth, t) :: levels limit depth ts
    | some (.leaf _, after) =>
      (depth, t) :: (atDepth depth (passed ts after) ++ levels limit depth after)
    | some (.block header _ _, after) =>
      let stop := (body limit (depth + 1) after).rest
      (depth, t) :: (atDepth depth (passed ts after) ++ (levels limit (depth + 1) after ++
        (atDepth depth (passed stop (afterBody header stop)) ++
          levels limit depth (afterBody header stop))))
termination_by ts.length
decreasing_by
  · simp
  · simp
  · have hafter := length_start_le _h
    simp only [List.length_cons]
    omega
  · have hafter := length_start_le _h
    simp only [List.length_cons]
    omega
  · have hafter := length_start_le _h
    have hstop : (body limit (depth + 1) after).rest.length ≤ after.length := length_body_rest_le
    have hnext := length_afterBody_le header (body limit (depth + 1) after).rest
    simp only [List.length_cons]
    omega

theorem levels_skip {ts : List Token} (he : endsBody depth t.kind = false)
    (ho : t.kind.opensConstruct = false) :
    levels limit depth (t :: ts) = (depth, t) :: levels limit depth ts := by
  have hs : start t ts = none := by rw [start, opening_none ho]
  rw [levels, if_neg (by simp [he])]
  split
  · rfl
  · split
    · rfl
    all_goals
      rename_i h
      rw [hs] at h
      cases h

theorem levels_leaf {ts after : List Token} {node : Node} (hd : tooDeep limit depth = false)
    (hs : start t ts = some (.leaf node, after)) :
    levels limit depth (t :: ts) =
      (depth, t) :: (atDepth depth (passed ts after) ++ levels limit depth after) := by
  rw [levels, if_neg (by simp [endsBody_of_opens (opens_of_start hs)]), if_neg (by simp [hd])]
  split
  all_goals
    rename_i h
    rw [hs] at h
    cases h
  rfl

theorem levels_block {ts after : List Token} {header : Header} {name : String}
    {attributes : Attributes} {stop : List Token} (hd : tooDeep limit depth = false)
    (hs : start t ts = some (.block header name attributes, after))
    (hstop : (body limit (depth + 1) after).rest = stop) :
    levels limit depth (t :: ts) =
      (depth, t) :: (atDepth depth (passed ts after) ++ (levels limit (depth + 1) after ++
        (atDepth depth (passed stop (afterBody header stop)) ++
          levels limit depth (afterBody header stop)))) := by
  rw [levels, if_neg (by simp [endsBody_of_opens (opens_of_start hs)]), if_neg (by simp [hd])]
  split
  all_goals
    rename_i h
    rw [hs] at h
    cases h
  rw [hstop]

/-- The levels of tokens are those of the reading. -/
theorem Reading.levels_eq (h : Reading limit depth log rest nodes limited) :
    levels limit depth (tokensOf log ++ rest) = log := by
  induction h with
  | @done depth rest he =>
    cases rest with
    | nil => rw [tokensOf_nil, List.nil_append, levels]
    | cons t rest =>
      have he : endsBody depth t.kind = true := he
      rw [tokensOf_nil, List.nil_append, levels, if_pos he]
  | deep ho hd _ ih =>
    rw [tokensOf_cons, List.cons_append, levels, ih]
    simp [endsBody_of_opens ho, hd]
  | skip he ho _ ih => rw [tokensOf_cons, List.cons_append, levels_skip he ho, ih]
  | leaf hd hs _ ih =>
    rw [tokensOf_leaf, levels_leaf hd (hs.read _ rfl), passed_append, ih]
  | block hd hs inside hc _ ihbody ih =>
    have hstop := congrArg Outcome.rest inside.body_eq
    rw [tokensOf_block, levels_block hd (hs.read _) hstop, hc.read _ rfl, passed_append, passed_append,
      ihbody, ih]

end Parse

/-! ### Trees without their lower levels -/

namespace Node

mutual

/-- A node with only so many levels below it. -/
def trim (n : Nat) : Node → Node
  | construct header name attributes children location =>
    construct header name attributes (trimAll n children) location
  | element tag attributes children selfClosing location =>
    element tag attributes (trimAll n children) selfClosing location
  | imports specifiers source location => imports specifiers source location
  | exports specifiers source isDefault location => exports specifiers source isDefault location
  | text value location => text value location
  | expression code location => expression code location

/-- Only so many levels of nodes. -/
def trimAll (n : Nat) : List Node → List Node
  | [] => []
  | node :: nodes =>
    match n with
    | 0 => []
    | n + 1 => trim n node :: trimAll (n + 1) nodes

end

@[simp]
theorem trimAll_zero (nodes : List Node) : trimAll 0 nodes = [] := by
  cases nodes <;> rfl

@[simp]
theorem trimAll_nil (n : Nat) : trimAll n [] = [] := rfl

theorem trimAll_cons (n : Nat) (node : Node) (nodes : List Node) :
    trimAll (n + 1) (node :: nodes) = trim n node :: trimAll (n + 1) nodes := rfl

theorem trim_leaf {node : Node} (n : Nat) (h : node.children = []) : trim n node = node := by
  cases node with
  | construct header name attributes children location =>
    have h : children = [] := h
    rw [trim, h, trimAll_nil]
  | element tag attributes children selfClosing location =>
    have h : children = [] := h
    rw [trim, h, trimAll_nil]
  | imports | exports | text | expression => rfl

end Node

/-- A document without what is nested deeper than so many levels. -/
def Program.trim (n : Nat) (p : Program) : Program := ⟨Node.trimAll n p.statements⟩

namespace Parse
open Token (Kind)
open Heading

variable {n depth : Nat} {log : List (Nat × Token)} {rest : List Token} {nodes : List Node}
  {limited : Bool} {limit : Option Nat}

/-- What stands in a body stands at its depth or deeper. -/
theorem Reading.le_depth (h : Reading limit depth log rest nodes limited) :
    ∀ e ∈ log, depth ≤ e.1 := by
  induction h with
  | done => simp
  | deep _ _ _ ih | skip _ _ _ ih => exact List.forall_mem_cons.mpr ⟨Nat.le_refl _, ih⟩
  | leaf _ _ _ ih =>
    simp only [List.forall_mem_cons, List.forall_mem_append]
    exact ⟨Nat.le_refl _, by simp [atDepth], ih⟩
  | block _ _ _ _ _ ihbody ih =>
    simp only [List.forall_mem_cons, List.forall_mem_append]
    exact ⟨Nat.le_refl _, by simp [atDepth], fun e he => Nat.le_of_succ_le (ihbody e he),
      by simp [atDepth], ih⟩

/-- At the limit, tokens that do not end the body are passed over one by one. -/
theorem Reading.flat (hd : n ≤ depth) (hend : endsBody depth (nextKind rest) = true) (ts : List Token)
    (hts : ∀ t ∈ ts, endsBody depth t.kind = false) :
    ∃ limited, Reading (some n) depth (atDepth depth ts) rest [] limited := by
  induction ts with
  | nil => exact ⟨false, .done hend⟩
  | cons t ts ih =>
    obtain ⟨ht, hts⟩ := List.forall_mem_cons.mp hts
    obtain ⟨limited, hread⟩ := ih hts
    cases ho : t.kind.opensConstruct with
    | true => exact ⟨true, .deep ho (tooDeep_eq_true.mpr hd) hread⟩
    | false => exact ⟨limited, .skip ht ho hread⟩

/-- A body at the limit with no closing brace in it. -/
theorem Reading.trimmed_flat (h : Reading none depth log rest nodes limited) (hd : depth = n)
    (hopen : ∀ e ∈ log, n ≤ e.1 → e.2.kind ≠ .symbol .rightBrace) :
    ∃ log' limited', tokensOf log' = tokensOf log ∧
      Reading (some n) depth log' rest (Node.trimAll (n - depth) nodes) limited' := by
  have hts : ∀ t ∈ tokensOf log, endsBody depth t.kind = false := by
    intro t ht
    obtain ⟨e, he, rfl⟩ := List.mem_map.mp ht
    have hbrace := hopen e he (hd ▸ h.le_depth e he)
    have heof := h.not_eof e.2 ht
    simp [endsBody, hbrace, heof]
  obtain ⟨limited', hread⟩ := Reading.flat (Nat.le_of_eq hd.symm) h.ends (tokensOf log) hts
  refine ⟨atDepth depth (tokensOf log), limited', tokensOf_atDepth, ?_⟩
  have hzero : n - depth = 0 := by omega
  rw [hzero, Node.trimAll_zero]
  exact hread

/-- If no brace closes a body below the limit, then nothing is moved out of its place. -/
theorem Reading.trimmed (h : Reading none depth log rest nodes limited) (hd : depth < n)
    (hopen : ∀ e ∈ log, n ≤ e.1 → e.2.kind ≠ .symbol .rightBrace) :
    ∃ log' limited', tokensOf log' = tokensOf log ∧
      Reading (some n) depth log' rest (Node.trimAll (n - depth) nodes) limited' := by
  induction h with
  | done he => exact ⟨[], false, rfl, .done he⟩
  | deep _ hdeep => cases hdeep
  | skip he ho _ ih =>
    obtain ⟨log', limited', htokens, hread⟩ := ih hd (List.forall_mem_cons.mp hopen).2
    exact ⟨_ :: log', limited', by simp [htokens], .skip he ho hread⟩
  | @leaf depth t heading node _ _ _ _ _ hs _ ih =>
    have hlog := (List.forall_mem_append.mp (List.forall_mem_cons.mp hopen).2).2
    obtain ⟨log', limited', htokens, hread⟩ := ih hd hlog
    obtain ⟨k, hk⟩ : ∃ k, n - depth = k + 1 := ⟨n - depth - 1, by omega⟩
    rw [hk] at hread ⊢
    rw [Node.trimAll_cons, Node.trim_leaf k (leaf_node hs).1]
    rw [← htokens] at hs
    exact ⟨(depth, t) :: (atDepth depth heading ++ log'), limited', by simp [htokens],
      .leaf (tooDeep_eq_false.mpr hd) hs hread⟩
  | @block depth t heading close _ _ _ inner _ _ children _ _ _ _ hs inside hc _ ihbody ih =>
    simp only [List.forall_mem_cons, List.forall_mem_append] at hopen
    obtain ⟨-, -, hinner, -, hlog⟩ := hopen
    obtain ⟨log', limited', htokens, hread⟩ := ih hd hlog
    obtain ⟨inner', deeper', hsame, hbody⟩ : ∃ inner' deeper', tokensOf inner' = tokensOf inner ∧
        Reading (some n) (depth + 1) inner' _ (Node.trimAll (n - (depth + 1)) children) deeper' := by
      -- The body is above the limit again, or it is the first at the limit and opens nothing.
      rcases Nat.lt_or_eq_of_le (Nat.succ_le_of_lt hd) with hlt | heq
      · exact ihbody hlt hinner
      · exact inside.trimmed_flat heq hinner
    obtain ⟨k, hk⟩ : ∃ k, n - depth = k + 1 := ⟨n - depth - 1, by omega⟩
    have hk' : n - (depth + 1) = k := by omega
    rw [hk] at hread ⊢
    rw [hk'] at hbody
    rw [← htokens] at hc hbody
    rw [Node.trimAll_cons, Node.trim]
    exact ⟨(depth, t) :: (atDepth depth heading ++ (inner' ++ (atDepth depth close ++ log'))),
      deeper' || limited', by simp [htokens, hsame],
      .block (tooDeep_eq_false.mpr hd) hs hbody hc hread⟩

/-- The tokens in a body and in all bodies in it are among those that were given. -/
theorem mem_of_mem_levels {ts : List Token} {e : Nat × Token} (he : e ∈ levels limit 0 ts) :
    e.2 ∈ ts := by
  obtain ⟨log, rest, nodes, limited, rfl, hread, -⟩ := exists_statements limit ts
  rw [hread.levels_eq] at he
  exact List.mem_append_left rest (List.mem_map_of_mem he)

/-- The parser with a limit does what the one without does on the tokens that are not taken out. -/
theorem statements_kept (n : Nat) (ts : List Token) :
    (statements none (tokensOf (kept n (levels (some n) 0 ts)))).statements =
      (statements (some n) ts).statements := by
  obtain ⟨log, rest, nodes, limited, rfl, hread, hstatements⟩ := exists_statements (some n) ts
  have hpeek : peek [] = peek rest := by
    cases rest with
    | nil => rfl
    | cons t rest => exact (peek_eof hread.nextKind_rest).symm
  have hkept := (hread.uncapped.frame hpeek).body_eq
  rw [List.append_nil] at hkept
  rw [hstatements, hread.levels_eq, statements_eq_body, hkept]

/-- Where no brace closes a body below the limit, the limit cuts off what is nested too deep. -/
theorem statements_trim {ts : List Token} (hn : 0 < n)
    (hopen : ∀ e ∈ levels none 0 ts, n ≤ e.1 → e.2.kind ≠ .symbol .rightBrace) :
    (statements (some n) ts).statements = Node.trimAll n (statements none ts).statements := by
  obtain ⟨log, rest, nodes, limited, rfl, hread, hstatements⟩ := exists_statements none ts
  rw [hread.levels_eq] at hopen
  obtain ⟨log', limited', hsame, htrimmed⟩ := hread.trimmed hn hopen
  rw [hstatements, ← hsame, statements_eq_body, htrimmed.body_eq, Nat.sub_zero]

/-- In a page, two blocks without bodies are too deep for a limit of one. -/
example :
    let ts := Program.significant (Token.scan "page \x7b state api A \x7d config")
    (∀ e ∈ levels none 0 ts, 1 ≤ e.1 → e.2.kind ≠ .symbol .rightBrace) ∧
      ((levels (some 1) 0 ts).filter (opensDeep 1)).length = 2 := by
  decide +kernel

end Parse

namespace Program
open Parse

theorem significant_kept (n : Nat) (limit : Option Nat) (tokens : List Token) :
    significant (tokensOf (kept n (levels limit 0 (significant tokens)))) =
      tokensOf (kept n (levels limit 0 (significant tokens))) := by
  refine List.filter_eq_self.mpr ?_
  intro t ht
  obtain ⟨e, he, rfl⟩ := List.mem_map.mp ht
  have hmem : e.2 ∈ significant tokens := mem_of_mem_levels (List.mem_of_mem_filter he)
  exact (List.mem_filter.mp hmem).2

/-- The document is what the parser without a limit makes of the tokens without the keywords that
stand too deep. Constructs that are nested too deep are cut off as a whole if none of their bodies is
closed. -/
theorem parse_eq_parseUnlimited (tokens : List Token) :
    parse tokens =
        parseUnlimited (tokensOf (kept maxDepth (levels maxDepth 0 (significant tokens)))) ∧
      ((∀ e ∈ levels none 0 (significant tokens), maxDepth ≤ e.1 →
          e.2.kind ≠ .symbol .rightBrace) →
        parse tokens = (parseUnlimited tokens).trim maxDepth) := by
  constructor
  · rw [parseUnlimited, significant_kept, statements_kept, parse]
  · intro hopen
    rw [parse, statements_trim (by decide) hopen, parseUnlimited, trim]

end Program

/-! ### What is moved out of its place

Pages in pages, the innermost with a page and a state in it. If the limit is one less than the number
of pages, then the brace of the page in there closes the body that is as deep as the limit, and the
state is read outside of it. -/

namespace Nested
open Parse Heading Grammar

def page : Token := ⟨.keyword (.block .page), "page", ⟨1, 1⟩⟩

def state : Token := ⟨.keyword (.block .state), "state", ⟨1, 1⟩⟩

def brace : Token := ⟨.symbol .leftBrace, "\x7b", ⟨1, 1⟩⟩

def close : Token := ⟨.symbol .rightBrace, "\x7d", ⟨1, 1⟩⟩

/-- The tokens that open so many pages. -/
def opens : Nat → List Token
  | 0 => []
  | n + 1 => page :: brace :: opens n

def closes (n : Nat) : List Token := List.replicate n close

def tokens (n : Nat) : List Token := opens n ++ (page :: brace :: close :: state :: closes n)

def block (b : Block) (children : List Node) : Node :=
  .construct (.plain b) "" .empty children ⟨1, 1⟩

/-- Nodes in so many pages. -/
def pages : Nat → List Node → List Node
  | 0, nodes => nodes
  | n + 1, nodes => [block .page (pages n nodes)]

variable {limit : Option Nat} {n depth : Nat} {ts rest : List Token} {nodes : List Node}
  {limited : Bool}

theorem closes_succ (n : Nat) (rest : List Token) :
    closes (n + 1) ++ rest = closes n ++ close :: rest := by
  simp [closes, List.replicate_succ']

/-- A block with no name and no attributes. -/
theorem opening_block {t next : Token} {b : Block} (hk : t.kind = .keyword (.block b))
    (hi : next.kind ≠ .identifier) (he : endsAttributes next.kind = true) :
    opening t (next :: ts) = some (.construct (.plain b) "" .empty, next :: ts) := by
  have hname : name (next :: ts) = ("", next :: ts) := by simp [name, identifier?, hi]
  have hattributes : attributes (next :: ts) = (.empty, next :: ts) := attributesFrom_end he
  simp [Parse.opening, hk, Heading.opening, opened, hname, hattributes]

/-- A page whose body ends at its brace. -/
theorem body_page (hd : tooDeep limit depth = false)
    (h : body limit (depth + 1) ts = ⟨nodes, limited, close :: rest⟩) :
    body limit depth (page :: brace :: ts) =
      (body limit depth rest).prepend [block .page nodes] limited := by
  have ho : opening page (brace :: ts) = some (.construct (.plain .page) "" .empty, brace :: ts) :=
    opening_block rfl (by decide) (by decide)
  rw [body_open hd (start_block ho rfl), h]
  rfl

/-- A state without a body. -/
theorem body_state (hd : tooDeep limit depth = false) :
    body limit depth (state :: close :: rest) =
      (body limit depth (close :: rest)).prepend [block .state []] false := by
  have ho : opening state (close :: rest) =
      some (.construct (.plain .state) "" .empty, close :: rest) :=
    opening_block rfl (by decide) (by decide)
  exact body_leaf hd (start_bare ho nofun)

theorem body_close : body limit (depth + 1) (close :: rest) = ⟨[], false, close :: rest⟩ :=
  body_end (by simp [endsBody, close])

/-- Pages in pages, each of which ends at its brace. -/
theorem body_pages (hd : ∀ k ≤ n, tooDeep limit (depth + k) = false)
    (h : body limit (depth + (n + 1)) ts = ⟨nodes, limited, closes (n + 1) ++ rest⟩) :
    body limit depth (opens (n + 1) ++ ts) =
      (body limit depth rest).prepend (pages (n + 1) nodes) limited := by
  induction n generalizing depth rest with
  | zero => exact body_page (hd 0 (Nat.le_refl 0)) h
  | succ n ih =>
    have hd' : ∀ k ≤ n, tooDeep limit (depth + 1 + k) = false := by
      intro k hk
      rw [Nat.add_assoc, Nat.add_comm 1]
      exact hd (k + 1) (by omega)
    rw [closes_succ, ← Nat.add_assoc, Nat.add_right_comm] at h
    have hinner : body limit (depth + 1) (opens (n + 1) ++ ts) =
        ⟨pages (n + 1) nodes, limited, close :: rest⟩ := by
      rw [ih hd' h, body_close]
      simp [Outcome.prepend]
    exact body_page (hd 0 (Nat.zero_le _)) hinner

/-- Braces that close nothing. -/
theorem body_closes (n : Nat) : body limit 0 (closes n) = ⟨[], false, []⟩ := by
  induction n with
  | zero => exact body_nil
  | succ n ih =>
    rw [← ih]
    exact body_skip (by decide) (by decide)

/-- Without a limit each page ends at its own brace. -/
theorem statements_tokens (n : Nat) :
    (statements none (tokens (n + 1))).statements =
      pages (n + 1) [block .page [], block .state []] := by
  have hinner : body none (0 + (n + 1)) (page :: brace :: close :: state :: closes (n + 1)) =
      ⟨[block .page [], block .state []], false, closes (n + 1) ++ []⟩ := by
    rw [List.append_nil, body_page rfl body_close]
    change (body none _ (state :: close :: closes n)).prepend _ _ = _
    rw [body_state rfl, Nat.zero_add, body_close]
    rfl
  rw [statements_eq_body, tokens, body_pages (fun _ _ => rfl) hinner, body_nil]
  simp [Outcome.prepend]

theorem opens_succ (n : Nat) : opens (n + 1) = opens n ++ [page, brace] := by
  induction n with
  | zero => rfl
  | succ n ih => exact congrArg (page :: brace :: ·) ih

theorem closes_add (n k : Nat) : closes (n + k) = closes n ++ closes k := List.replicate_add ..

/-- With a limit the first brace closes two pages at once. -/
theorem statements_limited (n : Nat) :
    (statements (some (n + 2)) (tokens (n + 3))).statements =
      pages (n + 1) [block .page [], block .state []] := by
  have hdeep : tooDeep (some (n + 2)) (n + 1 + 1) = true := tooDeep_eq_true.mpr (Nat.le_refl _)
  have hd : ∀ k ≤ n + 1, tooDeep (some (n + 2)) (0 + k) = false := by
    intro k hk
    exact tooDeep_eq_false.mpr (by omega)
  -- In the body that is as deep as the limit, nothing is opened before the brace that closes it.
  have hbody (ts : List Token) :
      body (some (n + 2)) (n + 1 + 1) (opens 2 ++ close :: ts) = ⟨[], true, close :: ts⟩ := by
    simp only [opens, List.cons_append, List.nil_append]
    rw [body_deep rfl rfl hdeep, body_skip rfl rfl, body_deep rfl rfl hdeep, body_skip rfl rfl,
      body_close]
    rfl
  have hinner : body (some (n + 2)) (0 + (n + 1))
      (page :: brace :: (opens 2 ++ close :: state :: closes (n + 3))) =
      ⟨[block .page [], block .state []], true, closes (n + 1) ++ closes 2⟩ := by
    rw [body_page (hd (n + 1) (Nat.le_refl _)) (by rw [Nat.zero_add]; exact hbody _)]
    change (body _ _ (state :: close :: closes (n + 2))).prepend _ _ = _
    rw [body_state (hd (n + 1) (Nat.le_refl _)), Nat.zero_add, body_close, ← closes_add]
    rfl
  have htokens : tokens (n + 3) =
      opens (n + 1) ++ (page :: brace :: (opens 2 ++ close :: state :: closes (n + 3))) := by
    rw [tokens, opens_succ, opens_succ]
    simp [opens]
  rw [statements_eq_body, htokens, body_pages (fun k hk => hd k (by omega)) hinner, body_closes]
  simp [Outcome.prepend]

theorem trimAll_pages (n k : Nat) (nodes : List Node) :
    Node.trimAll n (pages (n + (k + 1)) nodes) = pages n [] := by
  induction n with
  | zero => rw [Node.trimAll_zero, pages]
  | succ n ih =>
    rw [Nat.add_right_comm, pages, Node.trimAll_cons, block, Node.trim, ih]
    rfl

theorem pages_succ (n : Nat) (nodes : List Node) :
    pages (n + 1) nodes = pages n [block .page nodes] := by
  induction n with
  | zero => rfl
  | succ n ih => exact congrArg (fun children => [block .page children]) ih

theorem pages_inj {nodes nodes' : List Node} (h : pages n nodes = pages n nodes') :
    nodes = nodes' := by
  induction n with
  | zero => exact h
  | succ n ih =>
    simp only [pages, block, List.cons.injEq, Node.construct.injEq, and_true, true_and] at h
    exact ih h

/-- In braces, what is balanced stays so. -/
theorem balanced_braces {kinds : List Token.Kind} (h : Balanced kinds) :
    Balanced (page.kind :: brace.kind :: (kinds ++ [close.kind])) := by
  obtain ⟨hle, heq⟩ := h
  refine ⟨?_, by simp [page, brace, close, heq]⟩
  intro p hp
  rw [List.mem_inits, List.prefix_cons_iff] at hp
  rcases hp with rfl | ⟨q, rfl, hq⟩
  · simp
  rw [List.prefix_cons_iff] at hq
  rcases hq with rfl | ⟨r, rfl, hr⟩
  · simp [page]
  rcases List.prefix_concat_iff.mp hr with rfl | hr
  · simp [page, brace, close, heq]
  · have hr := hle r ((List.mem_inits _ _).mpr hr)
    simpa [page, brace] using Nat.le_succ_of_le hr

theorem balanced_tokens (n : Nat) : Balanced ((tokens n).map Token.kind) := by
  induction n with
  | zero => decide
  | succ n ih =>
    have htokens : (tokens (n + 1)).map Token.kind =
        page.kind :: brace.kind :: ((tokens n).map Token.kind ++ [close.kind]) := by
      simp [tokens, opens, closes, List.replicate_succ']
    rw [htokens]
    exact balanced_braces ih

theorem mem_opens {t : Token} (h : t ∈ opens n) : t = page ∨ t = brace := by
  induction n with
  | zero => cases h
  | succ n ih =>
    rcases List.mem_cons.mp h with rfl | h
    · exact .inl rfl
    · rcases List.mem_cons.mp h with rfl | h
      · exact .inr rfl
      · exact ih h

theorem significant_opens (n : Nat) : Program.significant (opens n) = opens n := by
  refine List.filter_eq_self.mpr ?_
  intro t ht
  rcases mem_opens ht with rfl | rfl <;> rfl

theorem significant_tokens (n : Nat) : Program.significant (tokens n) = tokens n := by
  have hopens := significant_opens n
  unfold Program.significant at hopens ⊢
  rw [tokens, List.filter_append, hopens]
  refine congrArg (opens n ++ ·) (List.filter_eq_self.mpr ?_)
  intro t ht
  simp only [List.mem_cons, closes, List.mem_replicate] at ht
  rcases ht with rfl | rfl | rfl | rfl | ⟨-, rfl⟩ <;> rfl

/-- Balanced tokens that are nested too deep. The state is not cut off with the page that it stands
in, but comes two levels further out. -/
theorem parse_ne_trim :
    Balanced ((tokens (maxDepth + 1)).map Token.kind) ∧
      Program.parse (tokens (maxDepth + 1)) ≠
        (Program.parseUnlimited (tokens (maxDepth + 1))).trim maxDepth := by
  refine ⟨balanced_tokens _, ?_⟩
  intro h
  have hlimited : (statements maxDepth (tokens (maxDepth + 1))).statements =
      pages 255 [block .page [], block .state []] := statements_limited 254
  have htrimmed := trimAll_pages maxDepth 0 [block .page [], block .state []]
  rw [Program.parse, Program.trim, Program.parseUnlimited, significant_tokens, hlimited,
    statements_tokens, htrimmed, Program.mk.injEq] at h
  have hsame := pages_inj (h.trans (pages_succ 255 []))
  cases hsame

/-- Pages of which none is closed. -/
theorem body_opens (depth n : Nat) : body none depth (opens n) = ⟨pages n [], false, []⟩ := by
  induction n generalizing depth with
  | zero => simp [opens, pages]
  | succ n ih =>
    have ho : opening page (brace :: opens n) =
        some (.construct (.plain .page) "" .empty, brace :: opens n) :=
      opening_block rfl (by decide) (by decide)
    have hafter : afterBody (.plain .page) [] = [] := rfl
    rw [opens, body_open rfl (start_block ho rfl), ih, hafter, body_nil]
    rfl

/-- One page more than the limit lets in, and none of them closed: the last is cut off. -/
theorem parse_open_pages :
    (∀ e ∈ levels none 0 (Program.significant (opens (maxDepth + 1))), maxDepth ≤ e.1 →
        e.2.kind ≠ .symbol .rightBrace) ∧
      Program.parseUnlimited (opens (maxDepth + 1)) = ⟨pages (maxDepth + 1) []⟩ ∧
      Program.parse (opens (maxDepth + 1)) = ⟨pages maxDepth []⟩ := by
  have hopen : ∀ e ∈ levels none 0 (Program.significant (opens (maxDepth + 1))), maxDepth ≤ e.1 →
      e.2.kind ≠ .symbol .rightBrace := by
    intro e he _
    rw [significant_opens] at he
    rcases mem_opens (mem_of_mem_levels he) with h | h <;> simp [h, page, brace]
  have hpages : Program.parseUnlimited (opens (maxDepth + 1)) = ⟨pages (maxDepth + 1) []⟩ := by
    rw [Program.parseUnlimited, significant_opens, statements_eq_body, body_opens]
  refine ⟨hopen, hpages, ?_⟩
  rw [(Program.parse_eq_parseUnlimited _).2 hopen, hpages, Program.trim, trimAll_pages]

end Nested

end Folio
