import Folio.Token.Scan
import Folio.Tree.Heading

/-! Syntax trees from tokens. Parsing never fails: a token that opens no construct is passed over, and
a brace that is missing at the end is taken as given. -/

namespace Folio

open Token (Kind)

namespace Heading

theorem length_skip_le (kind : Kind) (ts : List Token) : (skip kind ts).length ≤ ts.length := by
  cases ts with
  | nil => simp [skip]
  | cons t ts => simp only [skip]; split <;> simp

theorem length_identifier?_le (ts : List Token) : (identifier? ts).2.length ≤ ts.length := by
  cases ts with
  | nil => simp [identifier?]
  | cons t ts => simp only [identifier?]; split <;> simp

theorem length_string?_le (ts : List Token) : (string? ts).2.length ≤ ts.length := by
  cases ts with
  | nil => simp [string?]
  | cons t ts => simp only [string?]; split <;> simp

theorem length_name_le (ts : List Token) : (name ts).2.length ≤ ts.length :=
  length_identifier?_le ts

theorem length_attributesFrom_le (done : Attributes) (ts : List Token) :
    (attributesFrom done ts).2.length ≤ ts.length := by
  fun_induction attributesFrom done ts <;> simp_all <;> omega

theorem length_namesFrom_le (close : Symbol) (done : List String) (ts : List Token) :
    (namesFrom close done ts).2.length ≤ ts.length := by
  fun_induction namesFrom close done ts <;> simp_all <;> omega

theorem length_names_le (opening close : Symbol) (ts : List Token) :
    (names opening close ts).2.length ≤ ts.length := by
  cases ts with
  | nil => simp [names]
  | cons t ts =>
    simp only [names]
    split
    · have := length_namesFrom_le close [] ts
      have := length_skip_le (.symbol close) (namesFrom close [] ts).2
      simp
      omega
    · simp

theorem length_target?_le (ts : List Token) : (target? ts).2.length ≤ ts.length := by
  cases ts with
  | nil => simp [target?]
  | cons t ts =>
    have := length_identifier?_le ts
    simp only [target?]
    split
    · simp; omega
    · simp

theorem length_definitionFrom_le (depth : Nat) (done : List String) (ts : List Token) :
    (definitionFrom depth done ts).2.length ≤ ts.length := by
  fun_induction definitionFrom depth done ts <;> simp_all <;> omega

theorem length_specifiersFrom_le (braced : Bool) (done : List String) (ts : List Token) :
    (specifiersFrom braced done ts).2.length ≤ ts.length := by
  fun_induction specifiersFrom braced done ts <;> simp_all <;> omega

theorem length_specifiers_le (ts : List Token) : (specifiers ts).2.length ≤ ts.length := by
  cases ts with
  | nil => simp [specifiers]
  | cons t ts =>
    simp only [specifiers]
    split
    · have := length_specifiersFrom_le true [] ts
      simp
      omega
    · exact length_specifiersFrom_le false [] (t :: ts)

theorem length_source?_le (ts : List Token) : (source? ts).2.length ≤ ts.length := by
  cases ts with
  | nil => simp [source?]
  | cons t ts =>
    have := length_string?_le ts
    simp only [source?]
    split
    · simp; omega
    · simp

theorem length_imports_le (location : Location) (ts : List Token) :
    (imports location ts).2.length ≤ ts.length := by
  have spec := length_specifiers_le ts
  have path := length_string?_le (specifiers ts).2
  have source := length_source?_le (specifiers ts).2
  simp only [imports]
  refine Nat.le_trans (length_skip_le _ _) ?_
  split
  · next h => rw [h] at path; simp_all; omega
  · omega

theorem length_exports_le (location : Location) (ts : List Token) :
    (exports location ts).2.length ≤ ts.length := by
  simp only [exports]
  refine Nat.le_trans (length_skip_le _ _) (Nat.le_trans (length_source?_le _) ?_)
  refine Nat.le_trans (length_specifiers_le _) ?_
  split <;> simp

theorem length_opened_le (header : Header) (name : String) (ts : List Token) :
    (opened header name ts).2.length ≤ ts.length :=
  length_attributesFrom_le .empty ts

theorem length_type_le (location : Location) (ts : List Token) :
    (type location ts).2.length ≤ ts.length := by
  have bound := length_name_le ts
  simp only [type]
  split
  · simp
  · next t more h =>
    rw [h] at bound
    split
    · refine Nat.le_trans (length_skip_le _ _) (Nat.le_trans (length_definitionFrom_le 0 [] more) ?_)
      simp at bound
      omega
    · exact bound

theorem length_opening_le {keyword : Keyword} {location : Location} {ts : List Token}
    {result : Opening × List Token} (h : opening keyword location ts = some result) :
    result.2.length ≤ ts.length := by
  have hname := length_name_le ts
  cases keyword <;> simp only [opening, Option.some.injEq, reduceCtorEq] at h <;> subst h
  case block b => exact Nat.le_trans (length_opened_le _ _ _) hname
  case component =>
    exact Nat.le_trans (length_opened_le _ _ _) (Nat.le_trans (length_names_le _ _ _) hname)
  case event =>
    exact Nat.le_trans (length_opened_le _ _ _) (Nat.le_trans (length_target?_le _) hname)
  case route =>
    exact Nat.le_trans (length_opened_le _ _ _) (Nat.le_trans (length_identifier?_le _)
      (Nat.le_trans (length_skip_le _ _) (length_string?_le ts)))
  case type => exact length_type_le location ts
  case hook =>
    exact Nat.le_trans (length_opened_le _ _ _) (Nat.le_trans (length_names_le _ _ _) hname)
  case imports => exact length_imports_le location ts
  case exports => exact length_exports_le location ts

end Heading

/-- The deepest nesting of blocks that is parsed. What is nested deeper is passed over. -/
def maxDepth : Nat := 256

namespace Parse

/-- What was parsed: the statements, whether some were nested too deep, and the tokens left over. -/
structure Outcome where
  statements : List Node
  depthLimited : Bool
  rest : List Token

/-- Whether statements at this depth end before a token of this kind. A closing brace ends a body;
outside all bodies it is passed over. -/
def endsBody (depth : Nat) (kind : Kind) : Bool :=
  kind = .eof || (0 < depth && kind = .symbol .rightBrace)

/-- Whether a block at this depth would be nested too deep. Without a limit none is. -/
def tooDeep (limit : Option Nat) (depth : Nat) : Bool :=
  limit.any (· ≤ depth)

/-- Passes over the brace that closes a body, and over the semicolon that may follow a type. -/
def afterBody (header : Header) (ts : List Token) : List Token :=
  let rest := Heading.skip (.symbol .rightBrace) ts
  match header with
  | .type _ => Heading.skip (.symbol .semicolon) rest
  | _ => rest

/-- Passes over the semicolon that may follow a type without a body. -/
def afterHeading (header : Header) (ts : List Token) : List Token :=
  match header with
  | .type _ => Heading.skip (.symbol .semicolon) ts
  | _ => ts

theorem length_afterBody_le (header : Header) (ts : List Token) :
    (afterBody header ts).length ≤ ts.length := by
  have inner := Heading.length_skip_le (.symbol .rightBrace) ts
  cases header <;> simp only [afterBody] <;> try exact inner
  exact Nat.le_trans (Heading.length_skip_le _ _) inner

theorem length_afterHeading_le (header : Header) (ts : List Token) :
    (afterHeading header ts).length ≤ ts.length := by
  cases header <;> simp only [afterHeading, Nat.le_refl, Heading.length_skip_le]

/-- The statement that a token opens, up to its body. -/
def opening (t : Token) (ts : List Token) : Option (Heading.Opening × List Token) :=
  match t.kind with
  | .keyword k => Heading.opening k t.location ts
  | _ => none

theorem length_opening_le {t : Token} {ts : List Token} {result : Heading.Opening × List Token}
    (h : opening t ts = some result) : result.2.length ≤ ts.length := by
  simp only [opening] at h
  split at h
  · exact Heading.length_opening_le h
  · contradiction

/-- Parses the statements of a body at the given depth, after the statements `done`, last statement
first. `limited` says whether a block was nested too deep so far. -/
def statementsFrom (limit : Option Nat) (depth : Nat) (done : List Node) (limited : Bool)
    (ts : List Token) : { r : Outcome // r.rest.length ≤ ts.length } :=
  match ts with
  | [] => ⟨⟨done.reverse, limited, []⟩, Nat.le_refl _⟩
  | t :: rest =>
    if endsBody depth t.kind then ⟨⟨done.reverse, limited, t :: rest⟩, Nat.le_refl _⟩
    else if t.kind.opensConstruct && tooDeep limit depth then
      let ⟨r, le⟩ := statementsFrom limit depth done true rest
      ⟨r, Nat.le_succ_of_le le⟩
    else
      match h : opening t rest with
      | none =>
        let ⟨r, le⟩ := statementsFrom limit depth done limited rest
        ⟨r, Nat.le_succ_of_le le⟩
      | some (.whole node, after) =>
        have shorter : after.length ≤ rest.length := length_opening_le h
        let ⟨r, le⟩ := statementsFrom limit depth (node :: done) limited after
        ⟨r, Nat.le_trans le (Nat.le_succ_of_le shorter)⟩
      | some (.construct header name attributes, []) =>
        let node := .construct header name attributes [] t.location
        ⟨⟨(node :: done).reverse, limited, []⟩, Nat.zero_le _⟩
      | some (.construct header name attributes, brace :: body) =>
        have shorter : body.length < rest.length := length_opening_le h
        if brace.kind = .symbol .leftBrace then
          let ⟨inner, innerLe⟩ := statementsFrom limit (depth + 1) [] limited body
          have after : (afterBody header inner.rest).length < rest.length :=
            Nat.lt_of_le_of_lt (Nat.le_trans (length_afterBody_le header inner.rest) innerLe) shorter
          let node := .construct header name attributes inner.statements t.location
          let ⟨r, le⟩ := statementsFrom limit depth (node :: done) inner.depthLimited
            (afterBody header inner.rest)
          ⟨r, Nat.le_succ_of_le (Nat.le_trans le (Nat.le_of_lt after))⟩
        else
          have after : (afterHeading header (brace :: body)).length ≤ rest.length :=
            Nat.le_trans (length_afterHeading_le header (brace :: body)) shorter
          let node := .construct header name attributes [] t.location
          let ⟨r, le⟩ := statementsFrom limit depth (node :: done) limited
            (afterHeading header (brace :: body))
          ⟨r, Nat.le_succ_of_le (Nat.le_trans le after)⟩
termination_by ts.length
decreasing_by all_goals simp only [List.length_cons]; omega

/-- Parses all statements of the tokens that are left. -/
def statements (limit : Option Nat) (ts : List Token) : Outcome :=
  (statementsFrom limit 0 [] false ts).val

end Parse

namespace Program

/-- The tokens that the parser looks at. -/
def significant (tokens : List Token) : List Token :=
  tokens.filter fun t => !t.kind.isTrivia

/-- Whether no token is left before the end. -/
def atEnd (tokens : List Token) : Bool :=
  (tokens.head?.map (·.kind == .eof)).getD true

/-- The document that tokens write. -/
def parse (tokens : List Token) : Program :=
  ⟨(Parse.statements maxDepth (significant tokens)).statements⟩

/-- The document that a text writes. -/
def parseSource (source : String) : Program := parse (Token.scan source)

end Program

end Folio
