import PolyQuery.Number
import PolyQuery.Text.Blank

/-! Reading numbers from text: decimal literals with sign, fraction and exponent, unsigned literals
in base 16, 8 and 2, and the two readers built on them — the whole text as a number, and the
longest integer in front of a text. -/
namespace PolyQuery.Number

/-- The value of a digit in bases up to 16. -/
def digitValue? (c : Char) : Option Nat :=
  let n := c.toNat
  if 48 ≤ n ∧ n ≤ 57 then some (n - 48)
  else if 97 ≤ n ∧ n ≤ 102 then some (n - 87)
  else if 65 ≤ n ∧ n ≤ 70 then some (n - 55)
  else none

/-- The digit's value when it is below the base. -/
def digitBelow? (base : Nat) (c : Char) : Option Nat :=
  (digitValue? c).filter (· < base)

/-- The value of a run of digits; every character must be one. -/
def digitsValue? (base : Nat) (cs : List Char) : Option Nat :=
  cs.foldl (fun acc c => match acc, digitBelow? base c with
    | some n, some d => some (n * base + d)
    | _, _ => none) (some 0)

/-- A decimal digit. -/
def isDigit (c : Char) : Bool := '0' ≤ c && c ≤ '9'

/-- The value of the decimal digits in a text, others being skipped. -/
def decimalValue (cs : List Char) : Nat :=
  cs.foldl (fun n c => match digitBelow? 10 c with
    | some d => n * 10 + d
    | none => n) 0

/-- An optional sign in front: whether it is a minus, and the rest. -/
def splitSign : List Char → Bool × List Char
  | '-' :: cs => (true, cs)
  | '+' :: cs => (false, cs)
  | cs => (false, cs)

/-- The number nearest to `digits * 10 ^ exponent`. An exponent that is out of every range gives
zero or an infinite number without being multiplied out. -/
def ofDecimal (negative : Bool) (digits : Nat) (exponent : Int) : Number :=
  let point : Int := (Nat.toDigits 10 digits).length + exponent
  if digits = 0 then (if negative then .negZero else .int 0)
  else if 310 < point then .infinite negative
  else if point < -330 then (if negative then .negZero else .int 0)
  else match exponent with
    | .ofNat up => nearest negative (digits * powerOfTen up) 1
    | .negSucc down => nearest negative digits (powerOfTen (down + 1))

/-- The exponent part of a decimal literal, empty or `e` with an optional sign and digits. -/
def exponentPart? : List Char → Option Int
  | [] => some 0
  | c :: cs =>
    if c = 'e' ∨ c = 'E' then
      let (negative, digits) := splitSign cs
      if digits.isEmpty || !digits.all isDigit then none
      else some (signed negative (decimalValue digits))
    else none

/-- A decimal literal without blanks: sign, digits with an optional point, optional exponent. -/
def decimalLiteral? (cs : List Char) : Option Number :=
  let (negative, body) := splitSign cs
  if body = "Infinity".toList then some (.infinite negative)
  else
    let whole := body.takeWhile isDigit
    let rest := body.dropWhile isDigit
    let (fraction, tail) := match rest with
      | '.' :: r => (r.takeWhile isDigit, r.dropWhile isDigit)
      | r => ([], r)
    if whole.isEmpty && fraction.isEmpty then none
    else match exponentPart? tail with
      | none => none
      | some e => some (ofDecimal negative (decimalValue (whole ++ fraction)) (e - fraction.length))

/-- The base that a literal announces in front, with the digits after it. -/
def basedDigits? : List Char → Option (Nat × List Char)
  | '0' :: mark :: cs =>
    if mark = 'x' ∨ mark = 'X' then some (16, cs)
    else if mark = 'o' ∨ mark = 'O' then some (8, cs)
    else if mark = 'b' ∨ mark = 'B' then some (2, cs)
    else none
  | _ => none

/-- The value of a literal in base 16, 8 or 2; `none` when the text announces no base, and a
missing value when its digits are not digits of that base. -/
def basedLiteral? (cs : List Char) : Option (Option Nat) :=
  (basedDigits? cs).map fun (base, digits) =>
    if digits.isEmpty then none else digitsValue? base digits

/-- The whole text as a number: blanks at the ends are skipped, the empty text is zero, and a text
that is no literal is `nan`. -/
def ofText (s : String) : Number :=
  let cs := Text.strip s.toList
  if cs.isEmpty then .int 0
  else match basedLiteral? cs with
    | some (some n) => ofInt n
    | some none => .nan
    | none => (decimalLiteral? cs).getD .nan

/-- The longest decimal integer in front of the text, after blanks and a sign; `nan` when there is
no digit. -/
def leadingInteger (s : String) : Number :=
  let (negative, body) := splitSign (Text.dropBlanks s.toList)
  let digits := body.takeWhile isDigit
  if digits.isEmpty then .nan else nearest negative (decimalValue digits) 1

/-- The whole text as an integer of any size: blanks at the ends are skipped, the empty text is
zero, a decimal literal may carry a sign and one in base 16, 8 or 2 may not. -/
def integerOfText? (s : String) : Option Int :=
  let cs := Text.strip s.toList
  if cs.isEmpty then some 0
  else match basedLiteral? cs with
    | some n => n.map Int.ofNat
    | none =>
      let (negative, digits) := splitSign cs
      if digits.isEmpty || !digits.all isDigit then none
      else some (signed negative (decimalValue digits))

end PolyQuery.Number
