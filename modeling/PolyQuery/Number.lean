/-! Binary floating-point numbers of 64 bits, held exactly. A finite number is an integer or a
dyadic fraction, so arithmetic is done in `Int` and rounded once, to the nearest number and to the
even one of two equally near. Main definitions: `Number.nearest`, the number nearest to a quotient,
and the arithmetic built on it. -/
namespace PolyQuery

/-- The power of two with an exponent. -/
def powerOfTwo (n : Nat) : Nat := Nat.pow 2 n

/-- The power of ten with an exponent. -/
def powerOfTen (n : Nat) : Nat := Nat.pow 10 n

/-- A binary64 number. Every number has one form only: `frac m k` is `m / 2 ^ (k + 1)` with `m`
odd, and all integers but the negative zero are `int`. -/
inductive Number where
  | int (n : Int)
  | frac (m : Int) (k : Nat)
  | negZero
  | infinite (negative : Bool)
  | nan
  deriving DecidableEq, Repr, Inhabited

namespace Number

/-- The least and the greatest integer such that it and its neighbours are numbers of their own. -/
def maxSafe : Int := 9007199254740991

/-- The integer nearest to `a / b`, a half going to the even neighbour. -/
def roundHalfEven (a b : Nat) : Nat :=
  let q := a / b
  let r := a % b
  if 2 * r < b then q
  else if b < 2 * r then q + 1
  else if q % 2 = 0 then q
  else q + 1

/-- The lowest terms of `q / 2 ^ k`, as a numerator and an exponent. -/
def lowestDyadic : Nat → Nat → Nat × Nat
  | q, 0 => (q, 0)
  | q, k + 1 => if q % 2 = 0 then lowestDyadic (q / 2) k else (q, k + 1)

/-- A magnitude with its sign. -/
def signed (negative : Bool) (n : Nat) : Int := if negative then -(n : Int) else n

/-- The number `± q * 2 ^ e`, infinite when it is too large. -/
def ofScaled (negative : Bool) (q : Nat) (e : Int) : Number :=
  if q = 0 then (if negative then .negZero else .int 0)
  else if 1024 ≤ (Nat.log2 q : Int) + e then .infinite negative
  else match e with
    | .ofNat up => .int (signed negative (q * powerOfTwo up))
    | .negSucc down =>
      match lowestDyadic q (down + 1) with
      | (n, 0) => .int (signed negative n)
      | (n, k + 1) => .frac (signed negative n) k

/-- The integer part of the binary logarithm of `num / den`, for positive `num` and `den`. -/
def binaryExponent (num den : Nat) : Int :=
  let l : Int := (Nat.log2 num : Int) - Nat.log2 den
  let reached : Bool := match l with
    | .ofNat up => den * powerOfTwo up ≤ num
    | .negSucc down => den ≤ num * powerOfTwo (down + 1)
  if reached then l else l - 1

/-- The number of units `2 ^ e` in `num / den`, rounded. -/
def roundScaled (num den : Nat) : Int → Nat
  | .ofNat up => roundHalfEven num (den * powerOfTwo up)
  | .negSucc down => roundHalfEven (num * powerOfTwo (down + 1)) den

/-- The unit in the last place of the numbers around `num / den`, as a power of two. -/
def unitExponent (num den : Nat) : Int := max (binaryExponent num den - 52) (-1074)

/-- The number nearest to `± num / den`; a zero keeps the sign. -/
def nearest (negative : Bool) (num den : Nat) : Number :=
  if num = 0 then (if negative then .negZero else .int 0)
  else
    let e := unitExponent num den
    ofScaled negative (roundScaled num den e) e

/-- The number nearest to `num / den`, where an exact zero is positive. -/
def nearestRatio (num : Int) (den : Nat) : Number :=
  match num with
  | .ofNat n => nearest false n den
  | .negSucc n => nearest true (n + 1) den

/-- The number nearest to an integer. -/
def ofInt (n : Int) : Number :=
  if n.natAbs ≤ powerOfTwo 53 then .int n else nearestRatio n 1

/-- The exact value of a finite number, as numerator and denominator. -/
def ratio? : Number → Option (Int × Nat)
  | .int n => some (n, 1)
  | .frac m k => some (m, powerOfTwo (k + 1))
  | .negZero => some (0, 1)
  | .infinite _ => none
  | .nan => none

/-- Whether the sign is negative; that of `nan` is not. -/
def isNegative : Number → Bool
  | .int n => n < 0
  | .frac m _ => m < 0
  | .negZero => true
  | .infinite negative => negative
  | .nan => false

/-- Zero of either sign. -/
def isZero : Number → Bool
  | .int n => n == 0
  | .negZero => true
  | _ => false

/-- A finite number without fraction. -/
def isInteger : Number → Bool
  | .int _ => true
  | .negZero => true
  | _ => false

/-- An integer of magnitude at most `maxSafe`. -/
def isSafeInteger : Number → Bool
  | .int n => n.natAbs ≤ maxSafe.toNat
  | .negZero => true
  | _ => false

/-- The integer that a number is, when it is one. -/
def toInt? : Number → Option Int
  | .int n => some n
  | .negZero => some 0
  | _ => none

/-- The integer nearest to zero among those next to a finite number. -/
def truncate? : Number → Option Int
  | .int n => some n
  | .negZero => some 0
  | .frac m k => some (Int.tdiv m (powerOfTwo (k + 1)))
  | _ => none

/-- Strictly less; false when either side is `nan`. -/
def lt : Number → Number → Bool
  | .nan, _ => false
  | _, .nan => false
  | .infinite a, .infinite b => a && !b
  | .infinite a, _ => a
  | _, .infinite b => !b
  | a, b =>
    match a.ratio?, b.ratio? with
    | some (m, d), some (n, e) => m * e < n * d
    | _, _ => false

/-- Equal as numbers: the zeros are equal and `nan` is not equal to itself. -/
def eq : Number → Number → Bool
  | .nan, _ => false
  | .negZero, b => b.isZero
  | a, .negZero => a.isZero
  | a, b => a == b

/-- At most; false when either side is `nan`. -/
def le (a b : Number) : Bool := a.lt b || a.eq b

/-- The sum, rounded. -/
def add : Number → Number → Number
  | .nan, _ => .nan
  | _, .nan => .nan
  | .infinite a, .infinite b => if a = b then .infinite a else .nan
  | .infinite a, _ => .infinite a
  | _, .infinite b => .infinite b
  | .negZero, .negZero => .negZero
  | a, b =>
    match a.ratio?, b.ratio? with
    | some (m, d), some (n, e) => nearestRatio (m * e + n * d) (d * e)
    | _, _ => .nan

/-- The number of the other sign. -/
def neg : Number → Number
  | .int n => if n = 0 then .negZero else .int (-n)
  | .frac m k => .frac (-m) k
  | .negZero => .int 0
  | .infinite negative => .infinite (!negative)
  | .nan => .nan

/-- The difference, rounded. -/
def sub (a b : Number) : Number := a.add b.neg

/-- The product, rounded. -/
def mul (a b : Number) : Number :=
  let negative := a.isNegative != b.isNegative
  match a, b with
  | .nan, _ => .nan
  | _, .nan => .nan
  | .infinite _, b => if b.isZero then .nan else .infinite negative
  | a, .infinite _ => if a.isZero then .nan else .infinite negative
  | a, b =>
    match a.ratio?, b.ratio? with
    | some (m, d), some (n, e) => nearest negative (m.natAbs * n.natAbs) (d * e)
    | _, _ => .nan

/-- The quotient by a positive integer, rounded. -/
def divNat (a : Number) (b : Nat) : Number :=
  match a with
  | .nan => .nan
  | .infinite negative => .infinite negative
  | a =>
    match a.ratio? with
    | some (m, d) => nearest a.isNegative m.natAbs (d * b)
    | none => .nan

/-- The greatest integer that is not above. -/
def floor : Number → Number
  | .frac m k => ofInt (Int.fdiv m (powerOfTwo (k + 1)))
  | a => a

/-- The remainder by a positive integer, with the sign of the dividend. -/
def remNat (a : Number) (b : Nat) : Number :=
  match a with
  | .int n =>
    let r := Int.tmod n b
    if r = 0 ∧ n < 0 then .negZero else .int r
  | .frac m k => nearestRatio (Int.tmod m (b * powerOfTwo (k + 1))) (powerOfTwo (k + 1))
  | .negZero => .negZero
  | .infinite _ => .nan
  | .nan => .nan

/-- The nearest integer, a half going up. -/
def roundHalfUp : Number → Number
  | .frac m k =>
    let rounded := Int.fdiv (2 * m + powerOfTwo (k + 1)) (powerOfTwo (k + 2))
    if rounded = 0 ∧ m < 0 then .negZero else ofInt rounded
  | a => a

/-- Negative, zero or positive: the order of two numbers as a number, for numbers that are
subtracted without rounding. -/
def compare (a b : Number) : Number := a.sub b

end Number

end PolyQuery
