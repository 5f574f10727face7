import Folio.Text.Naming

/-! The fixed texts that nodes of a document turn into, around the names and paths of the node. -/

namespace Folio.Snippet

/-- The start of a page, up to its content. The title stands there as it was written. -/
def pageStart (title : Option String) : String :=
  "<!DOCTYPE html>\n<html lang=\"en\">\n<head>\n" ++
  "  <meta charset=\"UTF-8\">\n" ++
  "  <meta name=\"viewport\" content=\"width=device-width, initial-scale=1.0\">\n" ++
  (title.elim "" fun t => "  <title>" ++ t ++ "</title>\n") ++
  "  <link rel=\"stylesheet\" href=\"css/theme.css\">\n" ++
  "  <link rel=\"stylesheet\" href=\"css/emadocs.css\">\n" ++
  "  <link rel=\"stylesheet\" href=\"styles.css\">\n" ++
  "</head>\n<body>\n"

/-- The end of a page, after its content. -/
def pageEnd : String :=
  "  <script src=\"js/emadocs.js\"></script>\n" ++
  "  <script src=\"script.js\"></script>\n" ++
  "</body>\n</html>"

/-- The style of a custom element. -/
def componentStyle (name : String) : String :=
  "/* " ++ name ++ " Component */\n.ema-" ++ Text.toLower name ++
  " \x7b\n  display: block;\n  position: relative;\n  box-sizing: border-box;\n\x7d\n\n"

/-- The class of a custom element, and the call that makes it known. -/
def componentScript (name : String) : String :=
  let elementClass := "Ema" ++ Text.capitalize name
  "class " ++ elementClass ++ " extends HTMLElement \x7b\n" ++
  "  constructor() \x7b\n    super();\n    this.attachShadow(\x7b mode: 'open' \x7d);\n  \x7d\n\n" ++
  "  connectedCallback() \x7b\n    this.render();\n    this.setupEventListeners();\n  \x7d\n\n" ++
  "  render() \x7b\n    this.shadowRoot.innerHTML = this.getTemplate();\n  \x7d\n\n" ++
  "  getTemplate() \x7b\n    return `\n      <div class=\"ema-" ++ Text.toLower name ++
  "\">\n        <slot></slot>\n      </div>\n    `;\n  \x7d\n\n" ++
  "  setupEventListeners() \x7b\n    // Event listeners will be added here\n  \x7d\n\x7d\n\n" ++
  "customElements.define('" ++ Text.elementTag name ++ "', " ++ elementClass ++ ");\n"

/-- A rule for a style block. -/
def style (name : String) : String :=
  "/* " ++ name ++ " Styles */\n." ++ name ++
  " \x7b\n  /* Styles will be generated here */\n\x7d\n\n"

/-- Key frames of an animation. -/
def animation (name : String) : String :=
  "@keyframes " ++ name ++ " \x7b\n  /* Keyframes will be generated here */\n\x7d\n\n"

/-- A listener for an event. -/
def event (name : String) (target : Option String) : String :=
  "// Event: " ++ name ++ " on " ++ target.getD "" ++ "\ndocument.addEventListener('" ++ name ++
  "', (event) => \x7b\n  // Event handler code\n\x7d);\n"

/-- An object with the properties of a state. -/
def state (name : String) : String :=
  "// State: " ++ name ++ "\nconst " ++ name ++
  " = \x7b\n  // State properties will be generated here\n\x7d;\n"

/-- A class for an interface to a server. -/
def api (name : String) : String :=
  "// API: " ++ name ++ "\nclass " ++ name ++
  " \x7b\n  constructor() \x7b\n    this.baseUrl = '';\n  \x7d\n\n" ++
  "  // API methods will be generated here\n\x7d\n"

/-- The class that shows the page of an address. -/
def router : String :=
  "// Router\n" ++
  "class EmadocsRouter \x7b\n" ++
  "  constructor() \x7b\n" ++
  "    this.routes = new Map();\n" ++
  "    this.init();\n" ++
  "  \x7d\n\n" ++
  "  init() \x7b\n" ++
  "    window.addEventListener('popstate', () => this.handleRoute());\n" ++
  "    this.handleRoute();\n" ++
  "  \x7d\n\n" ++
  "  handleRoute() \x7b\n" ++
  "    const path = window.location.pathname;\n" ++
  "    // Route handling logic\n" ++
  "  \x7d\n" ++
  "\x7d\n"

/-- A note for a layout. -/
def layout (name : String) : String :=
  "// Layout: " ++ name ++ "\n// Layout implementation will be generated here\n"

/-- A note for a type. -/
def type (name : String) : String :=
  "// Type: " ++ name ++ "\n// Type definition will be generated here\n"

/-- A function for a hook. -/
def hook (name : String) : String :=
  "function use" ++ Text.capitalize name ++ "() \x7b\n  // Hook implementation\n\x7d\n"

/-- A class for a plugin. -/
def plugin (name : String) : String :=
  "class " ++ name ++ " \x7b\n  constructor() \x7b\n    // Plugin initialization\n  \x7d\n\x7d\n"

/-- An object for a configuration. -/
def config : String := "const config = \x7b\n  // Configuration will be generated here\n\x7d;\n"

/-- The specifiers of a module statement: one stands alone, any other number in braces. -/
def specifierList : List String → String
  | [] => "\x7b\x7d"
  | [single] => single
  | many => "\x7b " ++ ", ".intercalate many ++ " \x7d"

/-- The path of a module in single quotes, after its keyword. -/
def sourceClause : Option String → String
  | none => ""
  | some path => " from '" ++ path ++ "'"

/-- An import statement. -/
def imports (specifiers : List String) (source : Option String) : String :=
  match specifiers, source with
  | [], some path => "import '" ++ path ++ "';\n"
  | _, _ => "import " ++ specifierList specifiers ++ sourceClause source ++ ";\n"

/-- An export statement. -/
def exports (specifiers : List String) (source : Option String) (isDefault : Bool) : String :=
  "export " ++ (if isDefault then "default " else "") ++ specifierList specifiers ++
  sourceClause source ++ ";\n"

end Folio.Snippet
