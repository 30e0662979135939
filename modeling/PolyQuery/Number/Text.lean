import PolyQuery.Number

/-! The text of a number: the fewest decimal digits that read back as the same number, the nearest
such decimal where there are several, in positional notation from `1e-6` up to `1e21` and in
exponent notation outside. -/
namespace PolyQuery

/-- A decimal `digits * 10 ^ exponent`. -/
structure Decimal where
  digits : Nat
  exponent : Int
  deriving DecidableEq, Repr

namespace Decimal

/-- The power `10 ^ e` as a quotient of positive integers. -/
def powTen : Int → Nat × Nat
  | .ofNat up => (powerOfTen up, 1)
  | .negSucc down => (1, powerOfTen (down + 1))

/-- Without trailing zeros; `fuel` bounds their number. -/
def trim : Nat → Decimal → Decimal
  | 0, d => d
  | fuel + 1, d =>
    if d.digits ≠ 0 ∧ d.digits % 10 = 0 then trim fuel ⟨d.digits / 10, d.exponent + 1⟩ else d

/-- The least `j` at most `fuel` steps from `j` on with `10 ^ j * num ≥ den`. -/
def leadingZeros (num den : Nat) : Nat → Nat → Nat
  | 0, j => j
  | fuel + 1, j => if den ≤ num * powerOfTen j then j else leadingZeros num den fuel (j + 1)

/-- The `x` with `10 ^ (x - 1) ≤ num / den < 10 ^ x`. -/
def magnitude (num den : Nat) : Int :=
  if den ≤ num then ((Nat.toDigits 10 (num / den)).length : Int)
  else 1 - (leadingZeros num den 400 1 : Int)

/-- The open or closed interval of reals that round to one number, as bounds over the common
denominator `den`. -/
structure Interval where
  low : Nat
  value : Nat
  high : Nat
  den : Nat
  closed : Bool

/-- Whether a decimal lies in the interval. -/
def Interval.contains (i : Interval) (d : Decimal) : Bool :=
  let (up, down) := powTen d.exponent
  let here := d.digits * up * i.den
  let low := i.low * down
  let high := i.high * down
  if i.closed then low ≤ here && here ≤ high else low < here && here < high

/-- Which of two neighbours on a grid is nearer to the value: `true` for the upper one. -/
def Interval.nearerUpper (i : Interval) (lower : Decimal) : Bool :=
  let (up, down) := powTen lower.exponent
  let below := i.value * down - lower.digits * up * i.den
  let above := (lower.digits + 1) * up * i.den - i.value * down
  above < below || (above == below && lower.digits % 2 == 1)

/-- The neighbours of the value on the grid of `places` digits, as the best one in the interval. -/
def Interval.onGrid (i : Interval) (x : Int) (places : Nat) : Option Decimal :=
  let e := x - places
  let (up, down) := powTen e
  let lower : Decimal := ⟨i.value * down / (i.den * up), e⟩
  let upper : Decimal := ⟨lower.digits + 1, e⟩
  match i.contains lower, i.contains upper with
  | true, true => some (if i.nearerUpper lower then upper else lower)
  | true, false => some lower
  | false, true => some upper
  | false, false => none

/-- The interval of reals that round to `num / den`. -/
def Interval.around (num den : Nat) : Interval :=
  let e := Number.unitExponent num den
  let q := Number.roundScaled num den e
  let lowQuarters := if q = powerOfTwo 52 ∧ e ≠ -1074 then 1 else 2
  match e with
  | .ofNat up =>
    let unit := powerOfTwo up
    ⟨(4 * q - lowQuarters) * unit, 4 * q * unit, (4 * q + 2) * unit, 4, q % 2 == 0⟩
  | .negSucc down =>
    ⟨4 * q - lowQuarters, 4 * q, 4 * q + 2, 4 * powerOfTwo (down + 1), q % 2 == 0⟩

/-- The first grid of 1, 2, … 17 digits that has a decimal in the interval. -/
def Interval.shortest (i : Interval) (x : Int) : Decimal :=
  ((List.range 17).findSome? fun p => i.onGrid x (p + 1)).getD ⟨0, 0⟩

/-- The shortest decimal that reads back as the positive number `num / den`. -/
def ofRatio (num den : Nat) : Decimal :=
  trim 400 ((Interval.around num den).shortest (magnitude num den))

/-- Positional from `1e-6` up to `1e21`, with an exponent outside. -/
def text (d : Decimal) : String :=
  let digits := Nat.toDigits 10 d.digits
  let k := digits.length
  let point : Int := k + d.exponent
  if (k : Int) ≤ point ∧ point ≤ 21 then
    String.ofList (digits ++ List.replicate (point - k).toNat '0')
  else if 0 < point ∧ point ≤ 21 then
    String.ofList (digits.take point.toNat ++ '.' :: digits.drop point.toNat)
  else if -6 < point ∧ point ≤ 0 then
    String.ofList ("0.".toList ++ List.replicate (-point).toNat '0' ++ digits)
  else
    let e := point - 1
    let mantissa := if k = 1 then digits else digits.take 1 ++ '.' :: digits.drop 1
    let mark := if e < 0 then "e-" else "e+"
    String.ofList (mantissa ++ mark.toList ++ Nat.toDigits 10 e.natAbs)

end Decimal

/-- The text of a number; both zeros are written `0`. -/
def Number.text : Number → String
  | .nan => "NaN"
  | .infinite true => "-Infinity"
  | .infinite false => "Infinity"
  | .negZero => "0"
  | .int n =>
    if n.natAbs ≤ powerOfTwo 53 then toString n
    else (if n < 0 then "-" else "") ++ (Decimal.ofRatio n.natAbs 1).text
  | .frac m k =>
    (if m < 0 then "-" else "") ++ (Decimal.ofRatio m.natAbs (powerOfTwo (k + 1))).text

end PolyQuery
