import Folio.Json.Decode
import Folio.Tree

/-! Syntax trees as JSON. A node is an object with its kind under `type`; decoding what was encoded
gives the tree back. A record may also be written as an array of its members in order, except for
the constructs that have parts of their own. -/

namespace Folio

open Json

/-- A place as JSON. -/
def Location.toJson (l : Location) : Json :=
  .object [("line", .nat l.line.toNat), ("column", .nat l.column.toNat)]

/-- The place that a JSON value encodes. -/
def Location.ofJson? (j : Json) : Option Location := do
  let member ← j.record? ["line", "column"] 2
  return ⟨← (← member "line").word32?, ← (← member "column").word32?⟩

/-- Attributes as JSON. -/
def Attributes.toJson (a : Attributes) : Json :=
  .object (a.entries.map fun (key, value) => (key, .string value))

/-- The attributes that a JSON value encodes. -/
def Attributes.ofJson? (j : Json) : Option Attributes :=
  j.pairs?.map SortedMap.ofList

/-- The members that only some constructs have. -/
def Header.members : Header → List (String × Json)
  | plain _ => []
  | component typeParams => [("typeParams", .strings typeParams)]
  | event target => [("target", .stringOrNull target)]
  | route path shown => [("path", .stringOrNull path), ("component", .stringOrNull shown)]
  | type definition => [("definition", .stringOrNull definition)]
  | hook parameters => [("parameters", .strings parameters)]

/-- The sort of construct that a kind and the members of an object encode. -/
def Header.ofMembers? (kind : String) (member : String → Option Json) : Option Header :=
  match Keyword.ofSpelling? kind with
  | some (.block block) => some (.plain block)
  | some .component => do return .component (← (← member "typeParams").strings?)
  | some .event => (optional? string? (member "target")).map .event
  | some .route => do
    return .route (← optional? string? (member "path")) (← optional? string? (member "component"))
  | some .type => (optional? string? (member "definition")).map .type
  | some .hook => do return .hook (← (← member "parameters").strings?)
  | _ => none

namespace Node

mutual

/-- A node as JSON. -/
def toJson : Node → Json
  | construct header name attributes children location =>
    .object ([("type", .string header.keyword.spelling), ("name", .string name),
      ("attributes", attributes.toJson), ("children", .array (listToJson children)),
      ("location", location.toJson)] ++ header.members)
  | imports specifiers source location =>
    .object [("type", .string Keyword.imports.spelling), ("specifiers", .strings specifiers),
      ("source", .stringOrNull source), ("location", location.toJson)]
  | exports specifiers source isDefault location =>
    .object [("type", .string Keyword.exports.spelling), ("specifiers", .strings specifiers),
      ("source", .stringOrNull source), ("isDefault", .bool isDefault),
      ("location", location.toJson)]
  | element tag attributes children selfClosing location =>
    .object [("type", .string "element"), ("tag", .string tag),
      ("attributes", attributes.toJson), ("children", .array (listToJson children)),
      ("selfClosing", .bool selfClosing), ("location", location.toJson)]
  | text value location =>
    .object [("type", .string "text"), ("value", .string value), ("location", location.toJson)]
  | expression code location =>
    .object [("type", .string "expression"), ("expression", .string code),
      ("location", location.toJson)]

/-- Nodes as JSON. -/
def listToJson : List Node → List Json
  | [] => []
  | n :: ns => toJson n :: listToJson ns

end

/-- The place under `location`, or none in particular if it is missing. -/
def locationOf? (member : String → Option Json) : Option Location :=
  withDefault? {} Location.ofJson? (member "location")

/-- The names of the members that a kind of node has. -/
def memberNames (kind : String) : List String :=
  let construct := ["name", "attributes", "children", "location"]
  match Keyword.ofSpelling? kind with
  | some .component => construct ++ ["typeParams"]
  | some .event => construct ++ ["target"]
  | some .route => construct ++ ["path", "component"]
  | some .type => construct ++ ["definition"]
  | some .hook => construct ++ ["parameters"]
  | some .imports => ["specifiers", "source", "location"]
  | some .exports => ["specifiers", "source", "isDefault", "location"]
  | some _ => construct
  | none =>
    if kind = "element" then ["tag", "attributes", "children", "selfClosing", "location"]
    else if kind = "text" then ["value", "location"]
    else ["expression", "location"]

/-- Whether a node of this kind may be written as an array. The place, which comes last, may then be
left out. -/
def mayBeArray (kind : String) : Bool :=
  match Keyword.ofSpelling? kind with
  | some .component | some .event | some .route | some .type | some .hook => false
  | _ => true

/-- The node of a kind with these members, whose children are decoded already. -/
def ofMembers? (kind : String) (member : String → Option Json) (children : Option (List Node)) :
    Option Node := do
  if kind = Keyword.imports.spelling then
    return imports (← (← member "specifiers").strings?) (← optional? string? (member "source"))
      (← locationOf? member)
  else if kind = Keyword.exports.spelling then
    return exports (← (← member "specifiers").strings?) (← optional? string? (member "source"))
      (← (← member "isDefault").bool?) (← locationOf? member)
  else if kind = "element" then
    return element (← (← member "tag").string?) (← Attributes.ofJson? (← member "attributes"))
      (← children) (← (← member "selfClosing").bool?) (← locationOf? member)
  else if kind = "text" then return text (← (← member "value").string?) (← locationOf? member)
  else if kind = "expression" then
    return expression (← (← member "expression").string?) (← locationOf? member)
  else
    return construct (← Header.ofMembers? kind member) (← (← member "name").string?)
      (← Attributes.ofJson? (← member "attributes")) (← children) (← locationOf? member)

/-- The kinds of nodes in the order of their numbers. -/
def kinds : List String :=
  ["page", "component", "style", "event", "state", "api", "router", "route", "layout", "animation",
    "type", "hook", "plugin", "config", "import", "export", "element", "text", "expression"]

/-- The kind that a tag tells. Below another node it may be told by its number. -/
def kindOf? (isNested : Bool) : Json → Option String
  | .string name => some name
  | .number (.natural n) => if isNested then kinds[n]? else none
  | _ => none

mutual

/-- The node that a JSON value encodes. In an array the kind comes first. -/
def ofJson? (isNested : Bool) : Json → Option Node
  | .object members => do
    let tag ← (Json.object members).record? ["type"] 1
    let kind ← kindOf? isNested (← tag "type")
    let member ← (Json.object members).record? (memberNames kind) 0
    ofMembers? kind member (childrenOfMembers? members)
  | .array (tag :: items) => do
    let kind ← kindOf? isNested tag
    if mayBeArray kind then
      let names := memberNames kind
      let member ← (Json.array items).record? names (names.length - 1)
      ofMembers? kind member (childrenOfItems? items)
    else none
  | _ => none

/-- The nodes that JSON values encode. -/
def listOfJson? (isNested : Bool) : List Json → Option (List Node)
  | [] => some []
  | j :: js => do return (← ofJson? isNested j) :: (← listOfJson? isNested js)

/-- The nodes under `children`. -/
def childrenOfMembers? : List (String × Json) → Option (List Node)
  | [] => none
  | (name, value) :: members =>
    if name = "children" then
      match value with
      | .array items => listOfJson? true items
      | _ => none
    else childrenOfMembers? members

/-- The nodes in third place, where an array has the children of a node. -/
def childrenOfItems? : List Json → Option (List Node)
  | _ :: _ :: .array items :: _ => listOfJson? true items
  | _ => none

end

end Node

/-- A document as JSON. -/
def Program.toJson (p : Program) : Json :=
  .object [("statements", .array (Node.listToJson p.statements))]

/-- The document that a JSON value encodes. -/
def Program.ofJson? (j : Json) : Option Program := do
  let member ← j.record? ["statements"] 1
  return ⟨← Node.listOfJson? false (← (← member "statements").items?)⟩

end Folio
