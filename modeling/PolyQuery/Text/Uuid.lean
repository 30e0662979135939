import PolyQuery.Number.Literal

/-! UUIDs in their text form, 8-4-4-4-12 hexadecimal digits: versions 1 to 5 with the standard
variant, and the nil UUID. -/
namespace PolyQuery.Text.Uuid

/-- The lengths of the groups of digits. -/
def groupLengths : List Nat := [8, 4, 4, 4, 12]

/-- The text cut into pieces at every dash. -/
def pieces : List Char → List (List Char)
  | [] => [[]]
  | c :: cs =>
    if c = '-' then [] :: pieces cs
    else match pieces cs with
      | p :: ps => (c :: p) :: ps
      | [] => [[c]]

/-- A hexadecimal digit. -/
def isHex (c : Char) : Bool := (Number.digitValue? c).isSome

/-- Whether a text is a UUID: groups of the right lengths, and a version and a variant digit unless
every digit is zero. -/
def isValid (cs : List Char) : Bool :=
  let groups := pieces cs
  groups.map List.length == groupLengths && groups.all (·.all isHex) &&
    (groups.all (·.all (· == '0')) ||
      match groups with
      | [_, _, version :: _, variant :: _, _] =>
        '1' ≤ version && version ≤ '5' && "89abAB".toList.contains variant
      | _ => false)

/-- Two digits at a time as bytes. -/
def bytePairs : List Char → List UInt8
  | a :: b :: rest =>
    UInt8.ofNat ((Number.digitValue? a).getD 0 * 16 + (Number.digitValue? b).getD 0) ::
      bytePairs rest
  | _ => []

/-- The bytes of a UUID in text form. -/
def bytes (cs : List Char) : List UInt8 := bytePairs (cs.filter (· ≠ '-'))

/-- Digits grouped by dashes. -/
def grouped (digits : List Char) : List Char :=
  digits.take 8 ++ '-' :: (digits.drop 8).take 4 ++ '-' :: (digits.drop 12).take 4 ++
    '-' :: (digits.drop 16).take 4 ++ '-' :: digits.drop 20

end PolyQuery.Text.Uuid
