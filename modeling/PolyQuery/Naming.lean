import PolyQuery.Text.Letters

/-! Names on the two sides of a table: columns are written in snake case, the properties of records
in camel case. -/
namespace PolyQuery.Naming

/-- Every capital `A`–`Z` becomes an underscore and the small letter. -/
def snakeChars : List Char → List Char
  | [] => []
  | c :: cs =>
    if Text.isCapital c then '_' :: Char.ofNat (c.toNat + 32) :: snakeChars cs
    else c :: snakeChars cs

/-- An underscore directly before a small letter `a`–`z` is dropped and the letter made capital,
from left to right. -/
def camelChars : List Char → List Char
  | [] => []
  | [c] => [c]
  | c :: d :: cs =>
    if c = '_' ∧ Text.isSmall d then Char.ofNat (d.toNat - 32) :: camelChars cs
    else c :: camelChars (d :: cs)

/-- The column of a property. -/
def camelToSnake (s : String) : String := String.ofList (snakeChars s.toList)

/-- The property of a column. -/
def snakeToCamel (s : String) : String := String.ofList (camelChars s.toList)

end PolyQuery.Naming
