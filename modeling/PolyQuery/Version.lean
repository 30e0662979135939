import PolyQuery.Number.Literal
import PolyQuery.Number.Text

/-! Server versions: triples compared from the left, read from the texts and the numbers in which
servers report them. -/
namespace PolyQuery

/-- A server version. -/
structure Version where
  major : Number
  minor : Number
  patch : Number
  deriving DecidableEq, Repr

namespace Version

/-- The version of three naturals. -/
def of (major minor patch : Nat) : Version := ⟨.int major, .int minor, .int patch⟩

/-- The components from the left. -/
def components (v : Version) : List Number := [v.major, v.minor, v.patch]

/-- Components with points between them. -/
def format (v : Version) : String := ".".intercalate (v.components.map Number.text)

/-- The first two components that differ. -/
def firstDifference : List Number → List Number → Option (Number × Number)
  | a :: as, b :: bs => if a.eq b then firstDifference as bs else some (a, b)
  | _, _ => none

/-- Negative, zero or positive as the first version is before, equal to or after the second. -/
def compare (a b : Version) : Number :=
  match firstDifference a.components b.components with
  | some (x, y) => x.sub y
  | none => .int 0

/-- Whether a version is the minimum or after it. -/
def atLeast (v minimum : Version) : Bool :=
  match firstDifference v.components minimum.components with
  | some (x, y) => y.lt x
  | none => true

/-- The number that a run of digits stands for. -/
def component (digits : List Char) : Number := Number.nearest false (Number.decimalValue digits) 1

/-- The digits after a point in front; none leave the text as it is. -/
def pointed (cs : List Char) : List Char × List Char :=
  match cs with
  | '.' :: rest =>
    let digits := rest.takeWhile Number.isDigit
    if digits.isEmpty then ([], cs) else (digits, rest.dropWhile Number.isDigit)
  | cs => ([], cs)

/-- The first run of digits in a text and up to two more after points. -/
def parse? (text : String) : Option Version :=
  let start := text.toList.dropWhile fun c => !Number.isDigit c
  let major := start.takeWhile Number.isDigit
  if major.isEmpty then none
  else
    let (minor, rest) := pointed (start.dropWhile Number.isDigit)
    let (patch, _) := pointed rest
    some ⟨component major, component minor, component patch⟩

/-- The version in a single number: two digits a component, and from 100000 on four digits for the
minor component and no patch. -/
def ofNumber (n : Number) : Version :=
  let major := (n.divNat 10000).floor
  if (Number.int 100000).le n then ⟨major, n.remNat 10000, .int 0⟩
  else ⟨major, (n.divNat 100).floor.remNat 100, n.remNat 100⟩

end Version

end PolyQuery
