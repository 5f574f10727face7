import Folio.Keyword
import Folio.Location
import Folio.Symbol
import Folio.Text.Quoted

/-! Tokens: pieces of source text with their kind and place. A token keeps its text exactly as it was
written, so that a source can be put together again from its tokens. -/

namespace Folio

namespace Token

/-- What sort of text a token holds. `eof` stands at the end of every tokenized source. -/
inductive Kind where
  | keyword (k : Keyword)
  | symbol (s : Symbol)
  | identifier | string | number | template
  | comment | whitespace | newline
  | eof
  deriving DecidableEq, Repr

namespace Kind

/-- Every kind of token. -/
def all : List Kind :=
  Keyword.all.map keyword ++ Symbol.all.map symbol ++
    [identifier, string, number, template, comment, whitespace, newline, eof]

/-- The name of a kind. -/
def label : Kind → String
  | keyword k => k.label
  | symbol s => s.label
  | identifier => "Identifier"
  | string => "String"
  | number => "Number"
  | template => "TemplateLiteral"
  | comment => "Comment"
  | whitespace => "Whitespace"
  | newline => "Newline"
  | eof => "Eof"

/-- The kind with this name. -/
def ofLabel? (name : String) : Option Kind :=
  all.find? (·.label == name)

/-- Layout and comments, which the parser does not look at. -/
def isTrivia : Kind → Bool
  | comment | whitespace | newline => true
  | _ => false

/-- Whether a token of this kind opens a construct. -/
def opensConstruct : Kind → Bool
  | keyword k => k.opensConstruct
  | _ => false

end Kind

end Token

/-- A piece of source text. -/
structure Token where
  kind : Token.Kind
  text : String
  location : Location
  deriving DecidableEq, Repr

namespace Token

/-- Whether a text ends in an odd run of backslashes, so that the next character is escaped. -/
def endsEscaped (cs : List Char) : Bool :=
  (cs.reverse.takeWhile (· == '\\')).length % 2 == 1

/-- The text of a literal without its delimiters. The closing delimiter is missing when the literal
ran to the end of the source. -/
def unquoted : List Char → List Char
  | [] => []
  | quote :: inner =>
    if inner.getLast? = some quote && !endsEscaped inner.dropLast then inner.dropLast else inner

/-- What a token stands for: a literal's content, and any other token's text. Escapes stay as they
are written. -/
def value (t : Token) : String :=
  match t.kind with
  | .string | .template => String.ofList (unquoted t.text.toList)
  | _ => t.text

/-- A token as it is shown to a reader. -/
def describe (t : Token) : String :=
  t.kind.label ++ "(" ++ Text.quoted t.text ++ ") at " ++
    toString t.location.line.toNat ++ ":" ++ toString t.location.column.toNat

end Token

end Folio
