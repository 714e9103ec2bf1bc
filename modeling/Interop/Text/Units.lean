/-!
# UTF-16 units

Native characters are UTF-16 code units. A character outside the basic plane takes two of them, and a unit that is
half of such a pair has no character of its own.
-/

namespace Interop.Text

/-- The UTF-16 units of a character. -/
def unitsOf (c : Char) : List UInt16 :=
  let n := c.toNat
  if n < 0x10000 then [n.toUInt16]
  else [(0xD800 + (n - 0x10000) / 0x400).toUInt16, (0xDC00 + (n - 0x10000) % 0x400).toUInt16]

/-- The UTF-16 units of a text. -/
def units (s : String) : List UInt16 := s.toList.flatMap unitsOf

/-- The character of a single unit; half of a pair shows as the replacement character. -/
def ofUnit (u : UInt16) : Char :=
  if 0xD800 ≤ u.toNat ∧ u.toNat < 0xE000 then Char.ofNat 0xFFFD else Char.ofNat u.toNat

end Interop.Text
