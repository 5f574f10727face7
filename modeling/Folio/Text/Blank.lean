import Folio.Text.Ranges

/-! Blanks: the characters that separate tokens and carry no meaning of their own. -/

namespace Folio.Text

/-- White space above ASCII. -/
def blanks : Ranges :=
  [(0x85, 0x85), (0xA0, 0xA0), (0x1680, 0x1680), (0x2000, 0x200A), (0x2028, 0x2029),
  (0x202F, 0x202F), (0x205F, 0x205F), (0x3000, 0x3000)]

/-- White space: the tab, line feed, vertical tab, form feed, carriage return and space of ASCII,
and the blanks above ASCII. -/
def isBlank (c : Char) : Bool :=
  if c.toNat < 0x80 then c == ' ' || 0x9 ≤ c.toNat && c.toNat ≤ 0xD else blanks.contains c

end Folio.Text
