import Folio.Key

/-! Paths of files. A path is kept as it was written; what it means is the list of its components.
Repeated slashes, a slash at the end and a dot that is not at the start add no component. -/

namespace Folio

/-- A path as it was written. -/
structure Path where
  text : String
  deriving DecidableEq, Repr

namespace Path

/-- One step of a path. -/
inductive Component where
  | root
  | here
  | up
  | name (n : String)
  deriving DecidableEq, Repr

/-- The texts between the slashes. -/
def split : List Char → List (List Char)
  | [] => [[]]
  | c :: cs =>
    if c = '/' then [] :: split cs
    else
      match split cs with
      | [] => [[c]]
      | piece :: pieces => (c :: piece) :: pieces

/-- Texts with slashes between them. -/
def joined (pieces : List (List Char)) : List Char := List.intercalate ['/'] pieces

/-- A piece that stands for no component. -/
def isNoise (piece : List Char) : Bool := piece.isEmpty || piece == ['.']

/-- How a path starts: at the root, in the current directory by a dot, or with a component. -/
inductive Start where
  | root
  | here
  | bare
  deriving DecidableEq

/-- The start of a path, and the pieces after it. -/
structure Parts where
  start : Start
  pieces : List (List Char)

/-- A path taken apart. Putting the parts together gives its text again. -/
def parts (p : Path) : Parts :=
  match p.text.toList with
  | '/' :: body => ⟨.root, split body⟩
  | ['.'] => ⟨.here, [[]]⟩
  | '.' :: '/' :: body => ⟨.here, split ('/' :: body)⟩
  | body => ⟨.bare, split body⟩

/-- The text of a start. -/
def Start.text : Start → List Char
  | root => ['/']
  | here => ['.']
  | bare => []

/-- The component that a start stands for. -/
def Start.components : Start → List Component
  | root => [.root]
  | here => [.here]
  | bare => []

/-- The path with these parts. -/
def ofParts (p : Parts) : Path :=
  ⟨String.ofList (p.start.text ++ joined p.pieces)⟩

/-- The component that a piece stands for. -/
def component (piece : List Char) : Component :=
  if piece = ['.', '.'] then .up else .name (String.ofList piece)

/-- The steps of a path. -/
def components (p : Path) : List Component :=
  p.parts.start.components ++ (p.parts.pieces.filter fun piece => !isNoise piece).map component

/-- The pieces without noise at the end. -/
def trimEnd (pieces : List (List Char)) : List (List Char) :=
  (pieces.reverse.dropWhile isNoise).reverse

/-- The pieces after the first `n` components and after noise. -/
def dropComponents : Nat → List (List Char) → List (List Char)
  | 0, pieces => pieces.dropWhile isNoise
  | _ + 1, [] => []
  | n + 1, piece :: pieces =>
    if isNoise piece then dropComponents (n + 1) pieces else dropComponents n pieces

/-- Whether a path starts at the root. -/
def isAbsolute (p : Path) : Bool := p.text.toList.head? = some '/'

/-- A path that is looked up inside another one. An absolute path stays as it is. -/
def join (base p : Path) : Path :=
  if p.isAbsolute then p
  else if base.text.toList.getLast?.any (· ≠ '/') then ⟨base.text ++ "/" ++ p.text⟩
  else ⟨base.text ++ p.text⟩

/-- A name inside a directory. -/
def child (base : Path) (name : String) : Path := base.join ⟨name⟩

/-- The path without its last component. The root and the empty path have none. -/
def parent? (p : Path) : Option Path :=
  match trimEnd p.parts.pieces, p.parts.start with
  | [], .here => some ⟨""⟩
  | [], _ => none
  | pieces, start => some (ofParts ⟨start, trimEnd pieces.dropLast⟩)

/-- The path, its parent, and so on, in at most `fuel` steps, as long as there is something to name. -/
def ancestorsFrom : Nat → Path → List Path
  | 0, _ => []
  | fuel + 1, p =>
    match p.parent? with
    | none => []
    | some parent => p :: ancestorsFrom fuel parent

/-- The path, its parent, and so on up to, but not with, the root or the empty path. -/
def ancestors (p : Path) : List Path := ancestorsFrom (p.text.length + 1) p

/-- The last component, if it is a name. -/
def fileName? (p : Path) : Option String :=
  match p.components.getLast? with
  | some (.name n) => some n
  | _ => none

/-- A file name cut at its last dot, unless that comes first. -/
def splitName (name : List Char) : List Char × Option (List Char) :=
  let extension := (name.reverse.takeWhile (· ≠ '.')).reverse
  let stem := name.take (name.length - extension.length - 1)
  if name = ['.', '.'] || stem.isEmpty || extension.length = name.length then (name, none)
  else (stem, some extension)

/-- The end of the file name after its last dot. -/
def extension? (p : Path) : Option String :=
  p.fileName?.bind fun n => (splitName n.toList).2.map String.ofList

/-- The path cut after the stem of its file name. -/
def cutAfterStem (p : Path) : Path :=
  match p.fileName? with
  | none => p
  | some n =>
    let pieces := (trimEnd p.parts.pieces).dropLast ++ [(splitName n.toList).1]
    ofParts ⟨p.parts.start, pieces⟩

/-- The path without its extension. The extension goes first and the dot after it, so a name may
lose two dots. -/
def withoutExtension (p : Path) : Path :=
  match p.extension? with
  | none => p.cutAfterStem
  | some e => cutAfterStem ⟨String.ofList (p.text.toList.take (p.text.length - e.length))⟩

/-- The rest of a path below another one, as it was written but for noise at its ends. -/
def relativeTo? (p base : Path) : Option Path :=
  let ⟨start, pieces⟩ := p.parts
  if !base.components.isPrefixOf p.components then none
  else if base.components.isEmpty then some (ofParts ⟨start, trimEnd pieces⟩)
  else
    let passed := base.components.length - start.components.length
    some (ofParts ⟨.bare, trimEnd (dropComponents passed pieces)⟩)

/-- A text for each component, so that paths are ordered as the lists of these texts. -/
def Component.rank : Component → String
  | root => "\x00"
  | here => "\x01"
  | up => "\x02"
  | name n => "\x03" ++ n

/-- The order of paths: component by component. -/
def le (p q : Path) : Bool :=
  !Key.precedes (q.components.map Component.rank) (p.components.map Component.rank)

/-- Whether two paths mean the same. -/
def same (p q : Path) : Bool := p.components == q.components

end Path

instance : ToString Path := ⟨Path.text⟩

end Folio
