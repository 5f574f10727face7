import Folio.Text.Blank
import Folio.Text.Letter
import Folio.Text.Numeral
import Folio.Token

/-! Tokens of a source text. Each token is the longest that its rule allows at its place; a character
that starts no token is dropped. -/

namespace Folio.Token

/-- A character that may continue a word. -/
def isWordPart (c : Char) : Bool :=
  Text.isLetter c || Text.isNumeral c || c == '_'

/-- Length of the text up to and with the first `*/`, or of all of it. The text is preceded by `n`
more characters. -/
def commentLength : List Char → Nat → Nat
  | '*' :: '/' :: _, n => n + 2
  | _ :: cs, n => commentLength cs (n + 1)
  | [], n => n

/-- Length of the text up to and with the first `quote` that no backslash escapes, or of all of it.
The text is preceded by `n` more characters. -/
def quotedLength (quote : Char) : List Char → Nat → Nat
  | [], n => n
  | [_], n => n + 1
  | c :: d :: cs, n =>
    if c = quote then n + 1
    else if c = '\\' then quotedLength quote cs (n + 2)
    else quotedLength quote (d :: cs) (n + 1)

/-- The kind of token that starts with `c`, and how many characters of `rest` it takes. -/
def lexeme? (c : Char) (rest : List Char) : Option (Kind × Nat) :=
  if c = '\n' then some (.newline, 0)
  else if Text.isBlank c then
    some (.whitespace, (rest.takeWhile fun d => Text.isBlank d && d != '\n').length)
  else if c = '/' && rest.head? = some '/' then
    some (.comment, (rest.takeWhile (· != '\n')).length)
  else if c = '/' && rest.head? = some '*' then some (.comment, commentLength rest.tail 1)
  else if c = '"' || c = '\'' then some (.string, quotedLength c rest 0)
  else if c = '\x60' then some (.template, quotedLength c rest 0)
  else if c.isDigit then some (.number, (rest.takeWhile fun d => d.isDigit || d == '.').length)
  else if Text.isLetter c || c = '_' then
    let more := rest.takeWhile isWordPart
    let kind := (Keyword.ofSpelling? (String.ofList (c :: more))).elim .identifier .keyword
    some (kind, more.length)
  else (Symbol.longest? c rest).map fun s => (.symbol s, s.spelling.length - 1)

/-- The tokens of `cs`, which stands at `place`, after the tokens `done`, last token first. -/
def scanFrom (place : Location) (done : List Token) (cs : List Char) : List Token :=
  match cs with
  | [] => (⟨.eof, "", place⟩ :: done).reverse
  | c :: rest =>
    match lexeme? c rest with
    | none => scanFrom (place.step c) done rest
    | some (kind, n) =>
      let text := c :: rest.take n
      scanFrom (place.advance text) (⟨kind, String.ofList text, place⟩ :: done) (rest.drop n)
termination_by cs.length
decreasing_by all_goals simp; try omega

/-- The tokens of a source text, with `eof` last. -/
def scan (source : String) : List Token :=
  scanFrom .start [] source.toList

end Folio.Token
