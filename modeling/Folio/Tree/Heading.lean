import Folio.Token
import Folio.Tree

/-! What stands between a keyword and the body of its construct: names, lists, attributes, type
definitions and module specifiers. Every function here takes the tokens that are left and gives
back the tokens that are left after it. None of them passes `eof`. -/

namespace Folio.Heading

open Token (Kind)

/-- Passes over the next token if it is of this kind. -/
def skip (kind : Kind) : List Token → List Token
  | [] => []
  | t :: ts => if t.kind = kind then ts else t :: ts

/-- Takes an identifier, if one comes next. -/
def identifier? : List Token → Option String × List Token
  | [] => (none, [])
  | t :: ts => if t.kind = .identifier then (some t.text, ts) else (none, t :: ts)

/-- Takes the content of a string, if one comes next. -/
def string? : List Token → Option String × List Token
  | [] => (none, [])
  | t :: ts => if t.kind = .string then (some t.value, ts) else (none, t :: ts)

/-- Takes a name, which is empty if no identifier comes next. -/
def name (ts : List Token) : String × List Token :=
  ((identifier? ts).1.getD "", (identifier? ts).2)

/-- Whether a list of attributes ends before a token of this kind. -/
def endsAttributes (kind : Kind) : Bool :=
  kind = .symbol .leftBrace || kind = .symbol .rightBrace || kind = .symbol .semicolon ||
    kind = .eof || kind.opensConstruct

/-- Takes attributes `key = "value"` and adds them to `done`. Whatever else stands between them is
passed over. -/
def attributesFrom (done : Attributes) : List Token → Attributes × List Token
  | [] => (done, [])
  | t :: ts =>
    if endsAttributes t.kind then (done, t :: ts)
    else if t.kind = .identifier then
      match ts with
      | [] => (done, [])
      | assign :: more =>
        if assign.kind = .symbol .assign then
          match more with
          | [] => (done, [])
          | value :: rest =>
            if value.kind = .string then attributesFrom (done.insert t.text value.value) rest
            else attributesFrom done (value :: rest)
        else attributesFrom done (assign :: more)
    else attributesFrom done ts

/-- Takes a list of attributes. The last value of a key counts. -/
def attributes (ts : List Token) : Attributes × List Token :=
  attributesFrom .empty ts

/-- Takes identifiers up to `close`, an opening brace or the end, after the names `done`, last name
first. Whatever stands between them is passed over. -/
def namesFrom (close : Symbol) (done : List String) : List Token → List String × List Token
  | [] => (done.reverse, [])
  | t :: ts =>
    if t.kind = .symbol close || t.kind = .symbol .leftBrace || t.kind = .eof then
      (done.reverse, t :: ts)
    else if t.kind = .identifier then namesFrom close (t.text :: done) ts
    else namesFrom close done ts

/-- Takes a list of names between `opening` and `close`, if it comes next. -/
def names (opening close : Symbol) (ts : List Token) : List String × List Token :=
  match ts with
  | [] => ([], [])
  | t :: rest =>
    if t.kind = .symbol opening then
      let (names, rest) := namesFrom close [] rest
      (names, skip (.symbol close) rest)
    else ([], t :: rest)

/-- Takes `on` and the target of an event, if they come next. -/
def target? (ts : List Token) : Option String × List Token :=
  match ts with
  | [] => (none, [])
  | t :: rest =>
    if t.kind = .identifier && t.text = "on" then identifier? rest else (none, t :: rest)

/-- Takes the texts of a type definition, after the texts `done`, last text first, with `depth` open
braces. It ends before a semicolon or the keyword of a construct outside braces, before a brace that
closes none of its own, and before the end. -/
def definitionFrom (depth : Nat) (done : List String) : List Token → List String × List Token
  | [] => (done.reverse, [])
  | t :: ts =>
    if t.kind = .eof then (done.reverse, t :: ts)
    else if t.kind = .symbol .leftBrace then definitionFrom (depth + 1) (t.text :: done) ts
    else
      match depth with
      | 0 =>
        if t.kind = .symbol .rightBrace || t.kind = .symbol .semicolon || t.kind.opensConstruct then
          (done.reverse, t :: ts)
        else definitionFrom 0 (t.text :: done) ts
      | inner + 1 =>
        if t.kind = .symbol .rightBrace then definitionFrom inner (t.text :: done) ts
        else definitionFrom (inner + 1) (t.text :: done) ts

/-- Takes a type definition: the texts of its tokens, with one blank between them. -/
def definition (ts : List Token) : String × List Token :=
  let (texts, rest) := definitionFrom 0 [] ts
  (" ".intercalate texts, rest)

/-- Takes specifiers `A`, `A as B` and `* as B`, after the specifiers `done`, last specifier first.
With `braced` a closing brace ends the list and belongs to it. -/
def specifiersFrom (braced : Bool) (done : List String) : List Token → List String × List Token
  | [] => (done.reverse, [])
  | t :: ts =>
    if t.kind = .identifier || t.kind = .symbol .multiply then
      match ts with
      | [] => ((t.text :: done).reverse, [])
      | as :: more =>
        if as.kind = .keyword .renamed then
          match more with
          | [] => ((t.text :: done).reverse, [])
          | other :: rest =>
            if other.kind = .identifier then
              specifiersFrom braced ((t.text ++ " as " ++ other.text) :: done) rest
            else specifiersFrom braced (t.text :: done) (other :: rest)
        else specifiersFrom braced (t.text :: done) (as :: more)
    else if t.kind = .symbol .comma then specifiersFrom braced done ts
    else if t.kind = .symbol .rightBrace && braced then (done.reverse, ts)
    else (done.reverse, t :: ts)

/-- Takes a list of specifiers, which may stand in one pair of braces. -/
def specifiers (ts : List Token) : List String × List Token :=
  match ts with
  | [] => ([], [])
  | t :: rest =>
    if t.kind = .symbol .leftBrace then specifiersFrom true [] rest
    else specifiersFrom false [] (t :: rest)

/-- Takes `from` and the path of a module, if they come next. -/
def source? (ts : List Token) : Option String × List Token :=
  match ts with
  | [] => (none, [])
  | t :: rest => if t.kind = .keyword .source then string? rest else (none, t :: rest)

/-- Takes an import after its keyword. Without specifiers, the path of the module may stand alone. -/
def imports (location : Location) (ts : List Token) : Node × List Token :=
  let (specifiers, rest) := specifiers ts
  let (source, rest) :=
    match specifiers, string? rest with
    | [], (some path, rest) => (some path, rest)
    | _, _ => source? rest
  (.imports specifiers source location, skip (.symbol .semicolon) rest)

/-- Whether the word `default` comes next. -/
def startsDefault : List Token → Bool
  | [] => false
  | t :: _ => t.kind = .identifier && t.text = "default"

/-- Takes an export after its keyword. -/
def exports (location : Location) (ts : List Token) : Node × List Token :=
  let isDefault := startsDefault ts
  let (specifiers, rest) := specifiers (if isDefault then ts.tail else ts)
  let (source, rest) := source? rest
  (.exports specifiers source isDefault location, skip (.symbol .semicolon) rest)

/-- A statement up to its body: either it has none, or a body may follow. -/
inductive Opening where
  | whole (node : Node)
  | construct (header : Header) (name : String) (attributes : Attributes)

/-- A construct up to its body, with the attributes that come next. -/
def opened (header : Header) (name : String) (ts : List Token) : Opening × List Token :=
  let (attributes, rest) := attributes ts
  (.construct header name attributes, rest)

/-- Takes a type after its keyword: it has a definition or a body. -/
def type (location : Location) (ts : List Token) : Opening × List Token :=
  let (name, rest) := name ts
  match rest with
  | [] => (.construct (.type none) name .empty, [])
  | t :: more =>
    if t.kind = .symbol .assign then
      let (text, rest) := definition more
      (.whole (.construct (.type (some text)) name .empty [] location),
        skip (.symbol .semicolon) rest)
    else (.construct (.type none) name .empty, t :: more)

/-- Takes a statement after its keyword, up to its body. -/
def opening (keyword : Keyword) (location : Location) (ts : List Token) :
    Option (Opening × List Token) :=
  match keyword with
  | .block block =>
    let (name, rest) := name ts
    some (opened (.plain block) name rest)
  | .component =>
    let (name, rest) := name ts
    let (typeParams, rest) := names .openingTagStart .tagEnd rest
    some (opened (.component typeParams) name rest)
  | .event =>
    let (name, rest) := name ts
    let (target, rest) := target? rest
    some (opened (.event target) name rest)
  | .route =>
    let (path, rest) := string? ts
    let (component, rest) := identifier? (skip (.symbol .arrow) rest)
    some (opened (.route path component) "" rest)
  | .type => some (type location ts)
  | .hook =>
    let (name, rest) := name ts
    let (parameters, rest) := names .leftParen .rightParen rest
    some (opened (.hook parameters) name rest)
  | .imports =>
    let (node, rest) := imports location ts
    some (.whole node, rest)
  | .exports =>
    let (node, rest) := exports location ts
    some (.whole node, rest)
  | .source | .renamed | .reserved _ => none

end Folio.Heading
