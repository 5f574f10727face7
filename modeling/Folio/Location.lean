/-! Places in a source text. -/

namespace Folio

/-- A line and a column, counted from one. A tree that was not read from a text has both zero. -/
structure Location where
  line : UInt32 := 0
  column : UInt32 := 0
  deriving DecidableEq, Repr

namespace Location

/-- Where every source text begins. -/
def start : Location := ⟨1, 1⟩

/-- The place after one more character. -/
def step (l : Location) (c : Char) : Location :=
  if c = '\n' then ⟨l.line + 1, 1⟩ else ⟨l.line, l.column + 1⟩

/-- The place after some more text. -/
def advance (l : Location) (cs : List Char) : Location :=
  cs.foldl step l

end Location

end Folio
