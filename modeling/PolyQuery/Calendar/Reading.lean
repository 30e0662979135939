import PolyQuery.Calendar.Token

/-! Reading an instant from text. The ISO 8601 form comes first: a year, perhaps a month and a day,
perhaps a time with an offset. What does not have that form is read loosely: numbers, names of
months, times and offsets in almost any order, with words in front of the first number left out.
A time without an offset is in UTC. Main definition: `Calendar.read?`. -/
namespace PolyQuery.Calendar

/-- What has been read of a text. -/
structure Reading where
  /-- The numbers of the date, three at most. -/
  date : List Int
  /-- The month, when it was named. -/
  month : Option Nat
  /-- Hour, minute, second and millisecond, as far as they are known. -/
  time : List Nat
  /-- The hours before the half of the day that was named. -/
  half : Option Nat
  /-- Whether the offset goes westward, when there is one. -/
  westward : Option Bool
  offsetHour : Option Nat
  offsetMinute : Option Nat
  /-- Whether the text has the ISO form. -/
  iso : Bool

namespace Reading

/-- The reading before the first piece. -/
def empty : Reading := ⟨[], none, [], none, none, none, none, false⟩

/-- One more number of the date, when there is room. -/
def addDate? (r : Reading) (n : Int) : Option Reading :=
  if r.date.length < 3 then some { r with date := r.date ++ [n] } else none

/-- One more number of the time, when there is room. -/
def addTime? (r : Reading) (n : Nat) : Option Reading :=
  if r.time.length < 4 then some { r with time := r.time ++ [n] } else none

/-- The last number of the time, the missing ones being zero. -/
def endTime (r : Reading) (n : Nat) : Reading :=
  { r with time := (r.time ++ [n, 0, 0, 0]).take 4 }

/-- Whether the number may continue the time. -/
def expectsTime (r : Reading) (n : Nat) : Bool :=
  match r.time.length with
  | 1 => n < 60
  | 2 => n < 60
  | 3 => n < 1000
  | _ => false

/-- Whether the number may be the minutes of the offset. -/
def expectsOffset (r : Reading) (n : Nat) : Bool :=
  r.offsetHour.isSome && r.offsetMinute.isNone && decide (n < 60)

/-- The reading with an offset of whole hours. -/
def withZone (r : Reading) (hours : Int) : Reading :=
  { r with westward := some (decide (hours < 0)), offsetHour := some hours.natAbs
           offsetMinute := some 0 }

/-- The reading with an offset of hours and perhaps minutes. -/
def withOffset (r : Reading) (westward : Bool) (hour : Nat) (minute : Option Nat) : Reading :=
  { r with westward := some westward, offsetHour := some hour, offsetMinute := minute }

/-- Whether the offset is that of UTC. -/
def isUtc (r : Reading) : Bool := r.offsetHour == some 0 && r.offsetMinute == some 0

/-- The year that two digits stand for: the nearest to 2000, from 1950 on. -/
def fullYear (year : Int) : Int :=
  if 0 ≤ year ∧ year ≤ 49 then year + 2000
  else if 50 ≤ year ∧ year ≤ 99 then year + 1900
  else year

/-- A number that may be a day of a month. -/
def isDay (n : Int) : Bool := 1 ≤ n && n ≤ 31

/-- Year, month and day. Missing numbers are 1. A first number that is no day is the year; else the
month comes first, unless it was named. -/
def civil? (r : Reading) : Option (Int × Int × Int) :=
  if r.date.isEmpty then none
  else
    let a := r.date[0]?.getD 1
    let b := r.date[1]?.getD 1
    let c := r.date[2]?.getD 1
    let (year, month, day) :=
      match r.month with
      | none => if r.iso || !isDay a then (a, b, c) else (c, a, b)
      | some month => if isDay a then (b, (month : Int), a) else (a, (month : Int), b)
    if 1 ≤ month ∧ month ≤ 12 ∧ isDay day then
      some (if r.iso then year else fullYear year, month, day)
    else none

/-- The time of the day in milliseconds. Twelve hours make a half of the day when it was named; the
end of the day may be written as the hour 24. -/
def inDay? (r : Reading) : Option Int := do
  let written := r.time[0]?.getD 0
  let minute := r.time[1]?.getD 0
  let second := r.time[2]?.getD 0
  let millis := r.time[3]?.getD 0
  let hour ← match r.half with
    | none => some written
    | some before => if written ≤ 12 then some (written % 12 + before) else none
  let total := ((hour * 60 + minute) * 60 + second) * 1000 + millis
  if hour < 24 ∧ minute < 60 ∧ second < 60 ∧ millis < 1000 then some total
  else if hour = 24 ∧ minute = 0 ∧ second = 0 ∧ millis = 0 then some total
  else none

/-- The distance from UTC in seconds, within what a word of 32 bits holds. -/
def offset? (r : Reading) : Option Int :=
  match r.westward with
  | none => some 0
  | some westward =>
    let seconds := (r.offsetHour.getD 0 * 3600 + r.offsetMinute.getD 0 * 60) % 4294967296
    if seconds < 2147483648 then some (Number.signed westward seconds) else none

/-- The instant that was read. -/
def instant? (r : Reading) : Option Int := do
  let (year, month, day) ← r.civil?
  let time ← r.inDay?
  let offset ← r.offset?
  clip (daysOfCivil year month day * dayLength + time - offset * 1000)

end Reading

/-- The milliseconds that the digits of a fraction stand for, those after the third being cut. -/
def fractionMillis (value length : Nat) : Nat :=
  match length with
  | 1 => value * 100
  | 2 => value * 10
  | 3 => value
  | _ => value / powerOfTen (min length 9 - 3)

/-- What reading the ISO form comes to. -/
inductive IsoOutcome
  /-- The text has the form. -/
  | done (r : Reading)
  /-- The text begins as a date and a time do, and goes on otherwise. -/
  | refused
  /-- The date is not in the form: what was read so far, and the pieces that remain. -/
  | unlike (r : Reading) (rest : List Token)

/-- The offset at the end of an ISO time: none, `Z`, or a sign with `hh:mm` or `hhmm`. -/
def isoOffset? (r : Reading) : List Token → Option Reading
  | [] => some r
  | [.zulu] => some (r.withZone 0)
  | [.mark sign, .number n 4] =>
    if (sign = '+' ∨ sign = '-') ∧ n / 100 < 24 ∧ n % 100 < 60 then
      some (r.withOffset (sign == '-') (n / 100) (some (n % 100)))
    else none
  | [.mark sign, .number hour 2, .mark ':', .number minute 2] =>
    if (sign = '+' ∨ sign = '-') ∧ hour < 24 ∧ minute < 60 then
      some (r.withOffset (sign == '-') hour (some minute))
    else none
  | _ => none

/-- The time of the ISO form, after the letter T: hours and minutes, perhaps seconds, perhaps a
fraction, each written with two digits. -/
def isoTime? (r : Reading) : List Token → Option Reading
  | .number hour 2 :: .mark ':' :: .number minute 2 :: rest =>
    let fits (n top : Nat) : Bool := if hour = 24 then n == 0 else decide (n < top)
    if hour ≤ 24 ∧ fits minute 60 then
      match rest with
      | .mark ':' :: .number second 2 :: .mark '.' :: .number value length :: rest =>
        if fits second 60 ∧ (hour = 24 → value = 0) then
          isoOffset? { r with time := [hour, minute, second, fractionMillis value length] } rest
        else none
      | .mark ':' :: .number second 2 :: rest =>
        if fits second 60 then isoOffset? { r with time := [hour, minute, second] } rest else none
      | rest => isoOffset? { r with time := [hour, minute] } rest
    else none
  | _ => none

/-- The end of an ISO date: nothing, or a time. -/
def isoRest (r : Reading) : List Token → IsoOutcome
  | [] => .done { r.withZone 0 with iso := true }
  | .timeMark :: rest =>
    match isoTime? r rest with
    | some r => .done { r with iso := true }
    | none => .refused
  | rest => .unlike r rest

/-- Month and day of an ISO date, each after a dash and with two digits. -/
def isoDate (year : Int) : List Token → IsoOutcome
  | .mark '-' :: .number month 2 :: .mark '-' :: .number day 2 :: rest =>
    if month < 1 ∨ 12 < month then
      .unlike { Reading.empty with date := [year] }
        (.number month 2 :: .mark '-' :: .number day 2 :: rest)
    else if day < 1 ∨ 31 < day then
      .unlike { Reading.empty with date := [year, month] } (.number day 2 :: rest)
    else isoRest { Reading.empty with date := [year, month, day] } rest
  | .mark '-' :: .number month 2 :: rest =>
    if month < 1 ∨ 12 < month then
      .unlike { Reading.empty with date := [year] } (.number month 2 :: rest)
    else
      match rest with
      | .mark '-' :: rest => .unlike { Reading.empty with date := [year, month] } rest
      | rest => isoRest { Reading.empty with date := [year, month] } rest
  | .mark '-' :: rest => .unlike { Reading.empty with date := [year] } rest
  | rest => isoRest { Reading.empty with date := [year] } rest

/-- The ISO form: four digits of the year, or a sign and six that are not minus zero, and the rest
of the date. -/
def readIso : List Token → IsoOutcome
  | .mark '+' :: .number year 6 :: rest => isoDate year rest
  | .mark '-' :: .number year 6 :: rest =>
    if year = 0 then .unlike .empty (.mark '-' :: rest) else isoDate (-(year : Int)) rest
  | .number year 4 :: rest => isoDate year rest
  | rest => .unlike .empty rest

/-- The reading after a piece, and how many of the pieces that follow belong to it. -/
abbrev Step := Option (Reading × Nat)

/-- The pieces that may stand directly after a finished time. -/
def endsTime : List Token → Bool
  | [] => true
  | t :: _ => t == .blank || t == .zulu || t == .mark '+' || t == .mark '-'

/-- A number that no colon follows; `used` pieces before `rest` belong to it. -/
def plainStep (r : Reading) (n : Nat) (used : Nat) (rest : List Token) : Step :=
  if r.expectsOffset n then some ({ r with offsetMinute := some n }, used)
  else if r.expectsTime n then
    if endsTime rest then some (r.endTime n, used) else none
  else
    (r.addDate? n).map fun r => (r, if rest.head? == some (.mark '-') then used + 1 else used)

/-- A number: an hour or a minute before a colon, seconds before a fraction, and otherwise whatever
is missing. -/
def numberStep (r : Reading) (n : Nat) : List Token → Step
  | .mark ':' :: .mark ':' :: _ =>
    if r.time.isEmpty then some ({ r with time := [n, 0] }, 2) else none
  | .mark ':' :: .mark '.' :: _ => (r.addTime? n).map fun r => (r, 2)
  | .mark ':' :: _ => (r.addTime? n).map fun r => (r, 1)
  | .mark '.' :: rest =>
    if r.expectsTime n then
      match rest with
      | .number value length :: _ =>
        some (({ r with time := r.time ++ [n] } : Reading).endTime (fractionMillis value length), 2)
      | _ => none
    else plainStep r n 1 rest
  | rest => plainStep r n 0 rest

/-- A sign after a time or after UTC, with the offset that follows it: hours before a colon, one or
two digits for hours, three or four for hours and minutes. -/
def signStep (r : Reading) (westward : Bool) : List Token → Step
  | .number n length :: rest =>
    if rest.head? == some (.mark ':') then some (r.withOffset westward n none, 1)
    else if length = 1 ∨ length = 2 then some (r.withOffset westward n (some 0), 1)
    else if length = 3 ∨ length = 4 then
      some (r.withOffset westward (n / 100) (some (n % 100)), 1)
    else none
  | .mark ':' :: _ => some (r.withOffset westward 0 none, 0)
  | _ => none

/-- A word without a meaning at its place: it may only stand before the first number and apart from
it. -/
def wordStep (r : Reading) (numbered : Bool) (rest : List Token) : Step :=
  if numbered then none
  else
    match rest with
    | .number _ _ :: _ => none
    | _ => some (r, 0)

/-- One piece of a text that is read loosely; `numbered` tells whether a number was read before. -/
def looseStep (r : Reading) (numbered : Bool) (t : Token) (rest : List Token) : Step :=
  match t with
  | .number n _ => numberStep r n rest
  | .month n =>
    some ({ r with month := some n }, if rest.head? == some (.mark '-') then 1 else 0)
  | .half hours =>
    if r.time.isEmpty then wordStep r numbered rest else some ({ r with half := some hours }, 0)
  | .zone hours => if numbered then some (r.withZone hours, 0) else wordStep r numbered rest
  | .zulu => if numbered then some (r.withZone 0, 0) else wordStep r numbered rest
  | .timeMark => wordStep r numbered rest
  | .word => wordStep r numbered rest
  | .mark c =>
    if (c = '+' ∨ c = '-') ∧ (r.isUtc ∨ ¬ r.time.isEmpty) then signStep r (c == '-') rest
    else if (c = '+' ∨ c = '-' ∨ c = ')') ∧ numbered then none
    else some (r, 0)
  | .blank => some (r, 0)
  | .other => some (r, 0)

/-- Whether a piece counts as a number for the words after it: a number, or a sign with an
offset. -/
def numbers (r : Reading) : Token → Bool
  | .number _ _ => true
  | .mark c => (c == '+' || c == '-') && (r.isUtc || !r.time.isEmpty)
  | _ => false

/-- The pieces of a text, read loosely. -/
def readLoose? (r : Reading) (numbered : Bool) : List Token → Option Reading
  | [] => some r
  | t :: rest =>
    match looseStep r numbered t rest with
    | none => none
    | some (r', used) => readLoose? r' (numbered || numbers r t) (rest.drop used)
termination_by ts => ts.length
decreasing_by simp only [List.length_cons, List.length_drop]; omega

/-- The instant that a text names. -/
def read? (s : String) : Option Int :=
  match readIso (tokens s) with
  | .done r => r.instant?
  | .refused => none
  | .unlike r rest => (readLoose? r (!r.date.isEmpty) rest).bind Reading.instant?

end PolyQuery.Calendar
