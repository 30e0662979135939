import PolyQuery.Number

/-! Instants as milliseconds of UTC since 1970, and the two text forms they are written in: the ISO
8601 form and the long form with names of days and months. Main definitions: `Calendar.isoText` and
`Calendar.longText`. -/
namespace PolyQuery.Calendar

/-- Days from 1970-01-01 to a day of the proleptic Gregorian calendar; a day past the end of its
month counts on into the next one. -/
def daysOfCivil (year month day : Int) : Int :=
  let y := if month ≤ 2 then year - 1 else year
  let era := y.fdiv 400
  let yearOfEra := y - era * 400
  let dayOfYear := (153 * ((month + 9) % 12) + 2) / 5 + day - 1
  let dayOfEra := yearOfEra * 365 + yearOfEra / 4 - yearOfEra / 100 + dayOfYear
  era * 146097 + dayOfEra - 719468

/-- The year, month and day that lie a number of days after 1970-01-01. -/
def civilOfDays (days : Int) : Int × Int × Int :=
  let z := days + 719468
  let era := z.fdiv 146097
  let dayOfEra := z - era * 146097
  let yearOfEra := (dayOfEra - dayOfEra / 1460 + dayOfEra / 36524 - dayOfEra / 146096) / 365
  let dayOfYear := dayOfEra - (365 * yearOfEra + yearOfEra / 4 - yearOfEra / 100)
  let shifted := (5 * dayOfYear + 2) / 153
  let day := dayOfYear - (153 * shifted + 2) / 5 + 1
  let month := if shifted < 10 then shifted + 3 else shifted - 9
  let year := yearOfEra + era * 400
  (if month ≤ 2 then year + 1 else year, month, day)

/-- The milliseconds of a day. -/
def dayLength : Int := 86400000

/-- The largest distance from 1970 that an instant may have. -/
def reach : Int := 8640000000000000

/-- An instant within reach, none outside. -/
def clip (ms : Int) : Option Int := if ms.natAbs ≤ reach.toNat then some ms else none

/-- A number in decimal, filled up with zeros in front. -/
def padded (width n : Nat) : List Char :=
  let digits := Nat.toDigits 10 n
  List.replicate (width - digits.length) '0' ++ digits

/-- Four digits for the years 0 to 9999, a sign and six digits for the others. -/
def yearChars (year : Int) : List Char :=
  if 0 ≤ year ∧ year ≤ 9999 then padded 4 year.toNat
  else (if year < 0 then '-' else '+') :: padded 6 year.natAbs

/-- The ISO form of an instant: date and time to the millisecond in UTC. -/
def isoChars (ms : Int) : List Char :=
  let days := ms.fdiv dayLength
  let inDay := (ms - days * dayLength).toNat
  let (year, month, day) := civilOfDays days
  yearChars year ++ '-' :: padded 2 month.toNat ++ '-' :: padded 2 day.toNat ++
    'T' :: padded 2 (inDay / 3600000) ++ ':' :: padded 2 (inDay / 60000 % 60) ++
    ':' :: padded 2 (inDay / 1000 % 60) ++ '.' :: padded 3 (inDay % 1000) ++ ['Z']

/-- The characters of `isoChars` as a string. -/
def isoText (ms : Int) : String := String.ofList (isoChars ms)

/-- The names of the days, from the day of 1970-01-01 on. -/
def dayNames : List String := ["Thu", "Fri", "Sat", "Sun", "Mon", "Tue", "Wed"]

/-- The names of the months. -/
def monthNames : List String :=
  ["Jan", "Feb", "Mar", "Apr", "May", "Jun", "Jul", "Aug", "Sep", "Oct", "Nov", "Dec"]

/-- The long form of an instant. -/
def longText (ms : Int) : String :=
  let days := ms.fdiv dayLength
  let inDay := (ms - days * dayLength).toNat
  let (year, month, day) := civilOfDays days
  let dayName := (dayNames[(days % 7).toNat]?).getD ""
  let monthName := (monthNames[(month - 1).toNat]?).getD ""
  let yearText := (if year < 0 then "-" else "") ++ String.ofList (padded 4 year.natAbs)
  dayName ++ " " ++ monthName ++ " " ++ String.ofList (padded 2 day.toNat) ++ " " ++ yearText ++
    " " ++ String.ofList (padded 2 (inDay / 3600000)) ++ ":" ++
    String.ofList (padded 2 (inDay / 60000 % 60)) ++ ":" ++
    String.ofList (padded 2 (inDay / 1000 % 60)) ++ " GMT+0000 (Coordinated Universal Time)"

end PolyQuery.Calendar
