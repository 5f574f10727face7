import Folio.Text.Naming

/-! Reserved words. Some open a construct, two belong to the module statements, and the others are
set aside: they can be no name, and mean nothing yet. -/

namespace Folio

/-- Blocks that consist of a name, attributes and a body, and nothing else. -/
inductive Block where
  | page | style | state | api | router | layout | animation | plugin | config
  deriving DecidableEq, Repr

/-- Every plain block. -/
def Block.all : List Block :=
  [.page, .style, .state, .api, .router, .layout, .animation, .plugin, .config]

/-- The word that opens a plain block. -/
def Block.spelling : Block → String
  | .page => "page"
  | .style => "style"
  | .state => "state"
  | .api => "api"
  | .router => "router"
  | .layout => "layout"
  | .animation => "animation"
  | .plugin => "plugin"
  | .config => "config"

/-- Words that are set aside without a meaning of their own. -/
inductive Reserved where
  | «if» | «else» | «for» | «while» | function | async | await | «return» | const | «let» | var
  | true | false | null | undefined | «class» | «extends» | implements | interface | enum
  | «namespace» | render | computed | watch | mounted | unmounted
  deriving DecidableEq, Repr

/-- Every word that is set aside. -/
def Reserved.all : List Reserved :=
  [.if, .else, .for, .while, .function, .async, .await, .return, .const, .let, .var, .true, .false,
    .null, .undefined, .class, .extends, .implements, .interface, .enum, .namespace, .render,
    .computed, .watch, .mounted, .unmounted]

/-- How a word that is set aside is written. -/
def Reserved.spelling : Reserved → String
  | .if => "if"
  | .else => "else"
  | .for => "for"
  | .while => "while"
  | .function => "function"
  | .async => "async"
  | .await => "await"
  | .return => "return"
  | .const => "const"
  | .let => "let"
  | .var => "var"
  | .true => "true"
  | .false => "false"
  | .null => "null"
  | .undefined => "undefined"
  | .class => "class"
  | .extends => "extends"
  | .implements => "implements"
  | .interface => "interface"
  | .enum => "enum"
  | .namespace => "namespace"
  | .render => "render"
  | .computed => "computed"
  | .watch => "watch"
  | .mounted => "mounted"
  | .unmounted => "unmounted"

/-- A reserved word. `source` and `renamed` are the two words inside a module statement, before the
path of the module and before another name for what is imported. -/
inductive Keyword where
  | block (b : Block)
  | component | event | route | type | hook
  | imports | exports
  | source | renamed
  | reserved (r : Reserved)
  deriving DecidableEq, Repr

namespace Keyword

/-- Every reserved word. -/
def all : List Keyword :=
  Block.all.map block ++ [component, event, route, type, hook, imports, exports, source, renamed] ++
    Reserved.all.map reserved

/-- How a reserved word is written. -/
def spelling : Keyword → String
  | block b => b.spelling
  | component => "component"
  | event => "event"
  | route => "route"
  | type => "type"
  | hook => "hook"
  | imports => "import"
  | exports => "export"
  | source => "from"
  | renamed => "as"
  | reserved r => r.spelling

/-- The reserved word written like this, if there is one. -/
def ofSpelling? (word : String) : Option Keyword :=
  all.find? (·.spelling == word)

/-- Whether the word opens a construct. -/
def opensConstruct : Keyword → Bool
  | block _ | component | event | route | type | hook | imports | exports => true
  | source | renamed | reserved _ => false

/-- The name of the word's token kind. -/
def label (k : Keyword) : String := Text.capitalize k.spelling

end Keyword

end Folio
