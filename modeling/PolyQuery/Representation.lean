/-! How a column holds a value, and the direction of a conversion. -/
namespace PolyQuery

/-- The representation of a value in a column; `native` is what the driver takes unchanged. -/
inductive Representation where
  | native
  | text
  | integer
  | real
  | blob
  deriving DecidableEq, Repr

namespace Representation

/-- The word for a representation. -/
def name : Representation → String
  | .native => "native"
  | .text => "text"
  | .integer => "integer"
  | .real => "real"
  | .blob => "blob"

/-- All representations. -/
def all : List Representation := [.native, .text, .integer, .real, .blob]

/-- The representation that a word names. -/
def ofName? (word : String) : Option Representation := all.find? (·.name == word)

end Representation

/-- To the column or from it. -/
inductive Direction where
  | toDatabase
  | fromDatabase
  deriving DecidableEq, Repr

end PolyQuery
