/-! Operators, punctuation and tag delimiters. -/

namespace Folio

/-- A token that is always written the same way and is no word. -/
inductive Symbol where
  | assign | equal | notEqual | lessEqual | greaterEqual
  | plus | minus | multiply | divide | modulo
  | and | ampersand | or | pipe | not | arrow
  | leftParen | rightParen | leftBrace | rightBrace | leftBracket | rightBracket
  | semicolon | comma | dot | colon | question
  | openingTagStart | closingTagStart | tagEnd
  deriving DecidableEq, Repr

namespace Symbol

/-- Every symbol. -/
def all : List Symbol :=
  [assign, equal, notEqual, lessEqual, greaterEqual, plus, minus, multiply, divide, modulo, and,
    ampersand, or, pipe, not, arrow, leftParen, rightParen, leftBrace, rightBrace, leftBracket,
    rightBracket, semicolon, comma, dot, colon, question, openingTagStart, closingTagStart, tagEnd]

/-- How a symbol is written. -/
def spelling : Symbol → List Char
  | assign => ['=']
  | equal => ['=', '=']
  | notEqual => ['!', '=']
  | lessEqual => ['<', '=']
  | greaterEqual => ['>', '=']
  | plus => ['+']
  | minus => ['-']
  | multiply => ['*']
  | divide => ['/']
  | modulo => ['%']
  | and => ['&', '&']
  | ampersand => ['&']
  | or => ['|', '|']
  | pipe => ['|']
  | not => ['!']
  | arrow => ['=', '>']
  | leftParen => ['(']
  | rightParen => [')']
  | leftBrace => ['{']
  | rightBrace => ['}']
  | leftBracket => ['[']
  | rightBracket => [']']
  | semicolon => [';']
  | comma => [',']
  | dot => ['.']
  | colon => [':']
  | question => ['?']
  | openingTagStart => ['<']
  | closingTagStart => ['<', '/']
  | tagEnd => ['>']

/-- The name of the symbol's token kind. -/
def label : Symbol → String
  | assign => "Assign"
  | equal => "Equal"
  | notEqual => "NotEqual"
  | lessEqual => "LessEqual"
  | greaterEqual => "GreaterEqual"
  | plus => "Plus"
  | minus => "Minus"
  | multiply => "Multiply"
  | divide => "Divide"
  | modulo => "Modulo"
  | and => "And"
  | ampersand => "Ampersand"
  | or => "Or"
  | pipe => "Pipe"
  | not => "Not"
  | arrow => "Arrow"
  | leftParen => "LeftParen"
  | rightParen => "RightParen"
  | leftBrace => "LeftBrace"
  | rightBrace => "RightBrace"
  | leftBracket => "LeftBracket"
  | rightBracket => "RightBracket"
  | semicolon => "Semicolon"
  | comma => "Comma"
  | dot => "Dot"
  | colon => "Colon"
  | question => "Question"
  | openingTagStart => "OpeningTagStart"
  | closingTagStart => "ClosingTagStart"
  | tagEnd => "TagEnd"

/-- The two-character symbol with these characters. -/
def ofPair? : Char → Char → Option Symbol
  | '=', '=' => some equal
  | '=', '>' => some arrow
  | '!', '=' => some notEqual
  | '<', '/' => some closingTagStart
  | '<', '=' => some lessEqual
  | '>', '=' => some greaterEqual
  | '&', '&' => some and
  | '|', '|' => some or
  | _, _ => none

/-- The one-character symbol with this character. -/
def ofChar? : Char → Option Symbol
  | '=' => some assign
  | '!' => some not
  | '<' => some openingTagStart
  | '>' => some tagEnd
  | '&' => some ampersand
  | '|' => some pipe
  | '+' => some plus
  | '-' => some minus
  | '*' => some multiply
  | '/' => some divide
  | '%' => some modulo
  | '(' => some leftParen
  | ')' => some rightParen
  | '{' => some leftBrace
  | '}' => some rightBrace
  | '[' => some leftBracket
  | ']' => some rightBracket
  | ';' => some semicolon
  | ',' => some comma
  | '.' => some dot
  | ':' => some colon
  | '?' => some question
  | _ => none

/-- The longest symbol at the start of `c :: rest`. -/
def longest? (c : Char) (rest : List Char) : Option Symbol :=
  (rest.head?.bind (ofPair? c)) <|> ofChar? c

end Symbol

end Folio
