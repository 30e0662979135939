/-! The order of texts by their units of sixteen bits. A character beyond the first plane counts as
two units, which stand before the last characters of the first plane. -/
namespace PolyQuery.Text

/-- The units of a character. -/
def unitsOf (c : Char) : List Nat :=
  let n := c.toNat
  if n < 0x10000 then [n]
  else [0xD800 + (n - 0x10000) / 0x400, 0xDC00 + n % 0x400]

/-- The units of a text. -/
def units (s : String) : List Nat := s.toList.flatMap unitsOf

/-- Whether a text does not come after another one. -/
def unitsLe (s t : String) : Bool := !decide (units t < units s)

end PolyQuery.Text
