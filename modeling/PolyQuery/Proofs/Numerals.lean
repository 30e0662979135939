import PolyQuery.Number.Text

/-! Numerals, the texts of numbers. A number is written as digits with a point among them, perhaps
with an exponent behind and a sign before them, or as a word: `Number.written`. -/
namespace PolyQuery

namespace Decimal

/-- A digit or the point. -/
def isPositional (c : Char) : Bool := c.isDigit || c == '.'

/-- Digits and points, perhaps with an exponent behind them. -/
inductive Numeral : String → Prop
  | positional {cs : List Char} (h : cs.all isPositional = true) : Numeral (String.ofList cs)
  | exponent {cs : List Char} (h : cs.all isPositional = true) (mark : String)
    (hmark : mark = "e-" ∨ mark = "e+") (n : Nat) :
    Numeral (String.ofList (cs ++ mark.toList ++ Nat.toDigits 10 n))

theorem isPositional_of_isDigit {c : Char} (h : c.isDigit = true) : isPositional c = true := by
  rw [isPositional, h, Bool.true_or]

theorem all_isPositional_toDigits (n : Nat) : (Nat.toDigits 10 n).all isPositional = true :=
  List.all_eq_true.2 fun _ hc =>
    isPositional_of_isDigit (Nat.isDigit_of_mem_toDigits (by omega) (by omega) hc)

/-- The point among the digits, at whatever place. -/
theorem all_isPositional_pointed {cs : List Char} (h : cs.all isPositional = true) (n : Nat) :
    (cs.take n ++ '.' :: cs.drop n).all isPositional = true := by
  rw [← List.take_append_drop n cs, List.all_append, Bool.and_eq_true] at h
  rw [List.all_append, List.all_cons, h.1, h.2]
  rfl

/-- A decimal is written as a numeral. -/
theorem numeral_text (d : Decimal) : Numeral d.text := by
  have hdigits := all_isPositional_toDigits d.digits
  have hzeros (n : Nat) : (List.replicate n '0').all isPositional = true :=
    List.all_eq_true.2 fun c hc => by rw [List.eq_of_mem_replicate hc]; rfl
  -- the point is behind all digits, among them, before them, or there is an exponent
  unfold text
  dsimp only
  split
  · exact .positional (by rw [List.all_append, hdigits, hzeros]; rfl)
  · split
    · exact .positional (all_isPositional_pointed hdigits _)
    · split
      · exact .positional (by rw [List.all_append, List.all_append, hdigits, hzeros]; rfl)
      · refine .exponent ?_ _ ?_ _
        · split
          · exact hdigits
          · exact all_isPositional_pointed hdigits 1
        · split
          · exact .inl rfl
          · exact .inr rfl

end Decimal

namespace Number
open Decimal

/-- The texts of numbers without their signs. -/
inductive Unsigned : String → Prop
  | numeral {s : String} (h : Numeral s) : Unsigned s
  | infinity : Unsigned "Infinity"
  | nan : Unsigned "NaN"

theorem unsigned_repr (n : Nat) : Unsigned (Nat.repr n) :=
  .numeral (.positional (all_isPositional_toDigits n))

/-- A number is written as such a text, perhaps behind a sign. -/
theorem written (n : Number) : ∃ s, Unsigned s ∧ (n.text = s ∨ n.text = "-" ++ s) := by
  have hsigned (m : Int) (d : Decimal) : ∃ s, Unsigned s ∧
      ((if m < 0 then "-" else "") ++ d.text = s ∨
        (if m < 0 then "-" else "") ++ d.text = "-" ++ s) := by
    refine ⟨d.text, .numeral d.numeral_text, ?_⟩
    split
    · exact .inr rfl
    · exact .inl String.empty_append
  cases n with
  | int n =>
    -- a whole number up to 2^53 is written in full, and a larger one like a fraction
    change ∃ s, Unsigned s ∧ ((if n.natAbs ≤ powerOfTwo 53 then toString n else _) = s ∨
      (if n.natAbs ≤ powerOfTwo 53 then toString n else _) = "-" ++ s)
    split
    · cases n with
      | ofNat n => exact ⟨_, unsigned_repr n, .inl rfl⟩
      | negSucc n => exact ⟨_, unsigned_repr (n + 1), .inr rfl⟩
    · exact hsigned n _
  | frac m k => exact hsigned m _
  | negZero => exact ⟨"0", unsigned_repr 0, .inl rfl⟩
  | infinite negative =>
    cases negative with
    | true => exact ⟨_, .infinity, .inr rfl⟩
    | false => exact ⟨_, .infinity, .inl rfl⟩
  | nan => exact ⟨_, .nan, .inl rfl⟩

end Number

end PolyQuery
