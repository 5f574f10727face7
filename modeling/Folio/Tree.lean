import Folio.Keyword
import Folio.Location
import Folio.SortedMap

/-! Syntax trees of documents. -/

namespace Folio

/-- Attributes of a construct or element, by their keys. -/
abbrev Attributes := SortedMap String String

/-- What sort of construct a block is, with the parts that only its sort has. -/
inductive Header where
  | plain (block : Block)
  | component (typeParams : List String)
  | event (target : Option String)
  | route (path component : Option String)
  | type (definition : Option String)
  | hook (parameters : List String)
  deriving DecidableEq, Repr

/-- The keyword that opens a construct. -/
def Header.keyword : Header → Keyword
  | plain block => .block block
  | component _ => .component
  | event _ => .event
  | route _ _ => .route
  | type _ => .type
  | hook _ => .hook

/-- A node of a syntax tree. The name of a construct is empty where none was given. -/
inductive Node where
  | construct (header : Header) (name : String) (attributes : Attributes) (children : List Node)
      (location : Location)
  | imports (specifiers : List String) (source : Option String) (location : Location)
  | exports (specifiers : List String) (source : Option String) (isDefault : Bool)
      (location : Location)
  | element (tag : String) (attributes : Attributes) (children : List Node) (selfClosing : Bool)
      (location : Location)
  | text (value : String) (location : Location)
  | expression (code : String) (location : Location)

namespace Node

/-- The name of the node's kind. -/
def kind : Node → String
  | construct header .. => header.keyword.spelling
  | imports .. => Keyword.imports.spelling
  | exports .. => Keyword.exports.spelling
  | element .. => "element"
  | text .. => "text"
  | expression .. => "expression"

/-- The nodes right below this one. -/
def children : Node → List Node
  | construct _ _ _ children _ => children
  | element _ _ children _ _ => children
  | imports .. | exports .. | text .. | expression .. => []

/-- Where the node was written. -/
def location : Node → Location
  | construct _ _ _ _ location => location
  | imports _ _ location => location
  | exports _ _ _ location => location
  | element _ _ _ _ location => location
  | text _ location => location
  | expression _ location => location

/-- The name of a construct. Other nodes have none. -/
def name? : Node → Option String
  | construct _ name .. => some name
  | imports .. | exports .. | element .. | text .. | expression .. => none

end Node

/-- A document: its statements in the order of the text. -/
structure Program where
  statements : List Node

end Folio
