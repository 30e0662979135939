import Mathlib.Algebra.GroupWithZero.Nat
import Mathlib.Tactic.SplitIfs
import PolyQuery.Number.Text

/-! Natural numbers among the numbers. Those of 53 binary digits are exact, and so are their
differences; their sums are rounded to even numbers beyond `2 ^ 53`: `Number.add_nat`. The texts of the
numbers up to `2 ^ 54` are their decimal numerals: `Number.text_nearestNat`. Beyond `2 ^ 53` a text has
the fewest digits that read back as the number, and these are all of them, since a decimal with fewer
digits is even as well and so at least two away. -/
namespace PolyQuery

/-! ## Sums of natural numbers -/

namespace Number
variable {m n : Nat}

theorem lowestDyadic_shifted (n k : Nat) : lowestDyadic (n * 2 ^ k) k = (n, 0) := by
  induction k with
  | zero => rw [lowestDyadic, Nat.pow_zero, Nat.mul_one]
  | succ k ih =>
    have hdouble : n * 2 ^ (k + 1) = n * 2 ^ k * 2 := by rw [Nat.pow_succ, Nat.mul_assoc]
    rw [lowestDyadic, hdouble, if_pos (Nat.mul_mod_left _ _), Nat.mul_div_cancel _ (by decide), ih]

theorem roundHalfEven_one (n : Nat) : roundHalfEven n 1 = n := by
  unfold roundHalfEven
  rw [Nat.div_one, Nat.mod_one]
  rfl

/-- The leading binary digit of a natural number. -/
theorem binaryExponent_one (hn : n ≠ 0) : binaryExponent n 1 = Nat.log2 n := by
  have hreached : 1 * powerOfTwo (Nat.log2 n) ≤ n := by
    rw [Nat.one_mul]
    exact Nat.log2_self_le hn
  have hdifference : (Nat.log2 n : Int) - Nat.log2 1 = Int.ofNat (Nat.log2 n) := by
    rw [show Nat.log2 1 = 0 by decide]
    exact Int.sub_zero _
  unfold binaryExponent
  simp only [hdifference]
  rw [if_pos (by simpa using hreached)]
  rfl

/-- A natural number of at most 53 binary digits is a number, and so is its negative. -/
theorem nearest_nat (negative : Bool) (hzero : n ≠ 0) (hn : n ≤ maxSafe.toNat) :
    nearest negative n 1 = .int (signed negative n) := by
  unfold nearest
  have hbits : Nat.log2 n < 53 := by
    rw [Nat.log2_lt hzero]
    exact Nat.lt_of_le_of_lt hn (by decide)
  rw [if_neg hzero, unitExponent, binaryExponent_one hzero]
  -- with 53 digits there is nothing to round, with fewer the number is shifted up to 53
  rcases Nat.lt_or_ge (Nat.log2 n) 52 with hless | hall
  · obtain ⟨down, hdown⟩ : ∃ down, Nat.log2 n + (down + 1) = 52 := ⟨51 - Nat.log2 n, by omega⟩
    have hunit : max ((Nat.log2 n : Int) - 52) (-1074) = Int.negSucc down := by omega
    have hscaled : roundScaled n 1 (Int.negSucc down) = n * 2 ^ (down + 1) := roundHalfEven_one _
    have hfull : n * 2 ^ (down + 1) ≠ 0 := Nat.mul_ne_zero hzero (Nat.ne_of_gt (Nat.two_pow_pos _))
    have hsmall : Nat.log2 (n * 2 ^ (down + 1)) < 53 := by
      rw [Nat.log2_lt hfull]
      calc n * 2 ^ (down + 1) < 2 ^ (Nat.log2 n + 1) * 2 ^ (down + 1) :=
            Nat.mul_lt_mul_of_pos_right Nat.lt_log2_self (Nat.two_pow_pos _)
        _ = 2 ^ 53 := by rw [← Nat.pow_add, show Nat.log2 n + 1 + (down + 1) = 53 by omega]
    rw [hunit]
    dsimp only
    rw [hscaled, ofScaled, if_neg hfull, if_neg (by omega)]
    simp only [lowestDyadic_shifted]
  · have hunit : max ((Nat.log2 n : Int) - 52) (-1074) = ((0 : Nat) : Int) := by omega
    have hscaled : roundScaled n 1 ((0 : Nat) : Int) = n := roundHalfEven_one n
    rw [hunit]
    dsimp only
    unfold ofScaled
    rw [hscaled, if_neg hzero, if_neg (by omega)]
    change Number.int (signed negative (n * 1)) = _
    rw [Nat.mul_one]

theorem nearestRatio_nat (hn : n ≤ maxSafe.toNat) : nearestRatio n 1 = .int n := by
  change nearest false n 1 = _
  by_cases hzero : n = 0
  · rw [hzero]
    rfl
  · exact nearest_nat false hzero hn

theorem nearestRatio_int {i : Int} (hi : i.natAbs ≤ maxSafe.toNat) : nearestRatio i 1 = .int i :=
  match i, hi with
  | .ofNat _, hi => nearestRatio_nat hi
  | .negSucc n, hi => nearest_nat true (Nat.succ_ne_zero n) hi

/-- The number nearest to a natural number below `2 ^ 54`: this number itself up to `2 ^ 53`, and an even
one beyond. -/
def nearestNat (n : Nat) : Nat := if n ≤ 2 ^ 53 then n else 2 * roundHalfEven n 2

/-- The half of an odd number is rounded to the even neighbour. -/
theorem roundHalfEven_two (n : Nat) :
    roundHalfEven n 2 = if n % 4 = 3 then n / 2 + 1 else n / 2 := by
  unfold roundHalfEven
  dsimp only
  split_ifs <;> omega

theorem nearestNat_eq_iff : nearestNat n = n ↔ n ≤ 2 ^ 53 ∨ 2 ∣ n := by
  unfold nearestNat
  rw [roundHalfEven_two]
  split_ifs <;> omega

/-- The unit in the last place of the numbers from `2 ^ 53` to `2 ^ 54` is two. -/
theorem unitExponent_beyond (hlow : 2 ^ 53 ≤ n) (hhigh : n < 2 ^ 54) :
    unitExponent n 1 = Int.ofNat 1 := by
  have hzero : n ≠ 0 := by omega
  have hlog : Nat.log2 n = 53 := (Nat.log2_eq_iff hzero).2 ⟨hlow, hhigh⟩
  rw [unitExponent, binaryExponent_one hzero, hlog]
  rfl

theorem nearest_beyond (hlow : 2 ^ 53 ≤ n) (hhigh : n < 2 ^ 54) :
    nearest false n 1 = .int ((2 * roundHalfEven n 2 : Nat) : Int) := by
  have hzero : n ≠ 0 := by omega
  have hhalf : roundHalfEven n 2 ≠ 0 ∧ roundHalfEven n 2 ≤ 2 ^ 53 := by
    rw [roundHalfEven_two]
    split <;> omega
  have hbits : Nat.log2 (roundHalfEven n 2) < 54 := (Nat.log2_lt hhalf.1).2 (by omega)
  have hfinite : ¬ 1024 ≤ (Nat.log2 (roundHalfEven n 2) : Int) + Int.ofNat 1 := by
    change ¬ 1024 ≤ (Nat.log2 (roundHalfEven n 2) : Int) + 1
    omega
  unfold nearest
  rw [if_neg hzero, unitExponent_beyond hlow hhigh]
  change ofScaled false (roundHalfEven n 2) (Int.ofNat 1) = _
  unfold ofScaled
  rw [if_neg hhalf.1, if_neg hfinite, Nat.mul_comm]
  rfl

/-- The sum of two natural numbers that are exact. -/
theorem add_nat (hm : m ≤ maxSafe.toNat) (hn : n ≤ maxSafe.toNat) :
    (Number.int m).add (.int n) = .int (nearestNat (m + n) : Int) := by
  have hmax : maxSafe.toNat = 2 ^ 53 - 1 := by decide
  change nearestRatio ((m : Int) * ((1 : Nat) : Int) + n * ((1 : Nat) : Int)) (1 * 1) = _
  rw [Int.natCast_one, Int.mul_one, Int.mul_one, ← Int.natCast_add]
  unfold nearestNat
  by_cases hsum : m + n ≤ maxSafe.toNat
  · rw [if_pos (by omega)]
    exact nearestRatio_nat hsum
  · change nearest false (m + n) 1 = _
    rw [nearest_beyond (by omega) (by omega)]
    split
    · next hlast =>
      have hpow : m + n = 2 ^ 53 := by omega
      rw [hpow]
      rfl
    · rfl

/-- The difference of two natural numbers, if they are exact. -/
theorem sub_nat (hm : m ≤ maxSafe.toNat) (hn : n ≤ maxSafe.toNat) :
    (Number.int m).sub (.int n) = .int ((m : Int) - n) := by
  have hadd (k : Int) : nearestRatio ((m : Int) * ((1 : Nat) : Int) + k * ((1 : Nat) : Int)) (1 * 1) =
      nearestRatio (m + k) 1 := by
    rw [Int.natCast_one, Int.mul_one, Int.mul_one]
  have hsub : (Number.int m).sub (.int n) = nearestRatio (m + -(n : Int)) 1 := by
    rw [← hadd]
    unfold sub neg
    dsimp only
    split
    · next hzero => rw [hzero]; rfl
    · rfl
  rw [hsub, nearestRatio_int (by omega)]
  rfl

end Number

/-! ## Texts of numbers -/

namespace Decimal
variable {d : Decimal} {n k : Nat}

/-- A decimal without places behind the point is a natural number. -/
def Denotes (d : Decimal) (n : Nat) : Prop := ∃ k : Nat, d.exponent = k ∧ d.digits * 10 ^ k = n

theorem toDigits_mul_pow (hn : 0 < n) (k : Nat) :
    Nat.toDigits 10 (n * 10 ^ k) = Nat.toDigits 10 n ++ List.replicate k '0' := by
  induction k with
  | zero => simp
  | succ k ih =>
    have hpos : 0 < n * 10 ^ k := Nat.mul_pos hn (Nat.pow_pos (by decide))
    calc Nat.toDigits 10 (n * 10 ^ (k + 1))
        = Nat.toDigits 10 (10 * (n * 10 ^ k) + 0) := by
          rw [Nat.pow_succ, ← Nat.mul_assoc, Nat.mul_comm 10, Nat.add_zero]
      _ = Nat.toDigits 10 (n * 10 ^ k) ++ Nat.toDigits 10 0 :=
          (Nat.toDigits_append_toDigits (by decide) hpos (by decide)).symm
      _ = Nat.toDigits 10 n ++ List.replicate (k + 1) '0' := by
          rw [ih, List.append_assoc, List.replicate_succ']
          rfl

/-- Such a decimal is written like the natural number, up to 21 digits. -/
theorem Denotes.text (h : d.Denotes n) (hn : 0 < n) (hlength : (Nat.toDigits 10 n).length ≤ 21) :
    d.text = toString n := by
  obtain ⟨k, hexponent, hdigits⟩ := h
  have hpos : 0 < d.digits := by
    apply Nat.pos_of_ne_zero
    intro hzero
    rw [hzero, Nat.zero_mul] at hdigits
    omega
  have hwritten : Nat.toDigits 10 n = Nat.toDigits 10 d.digits ++ List.replicate k '0' := by
    rw [← hdigits, toDigits_mul_pow hpos]
  have hcount : (Nat.toDigits 10 d.digits).length + k ≤ 21 := by
    rw [hwritten, List.length_append, List.length_replicate] at hlength
    exact hlength
  unfold Decimal.text
  dsimp only
  rw [hexponent, if_pos (by omega)]
  have hzeros : (((Nat.toDigits 10 d.digits).length : Int) + k -
      (Nat.toDigits 10 d.digits).length).toNat = k := by omega
  rw [hzeros, ← hwritten]
  rfl

/-- Without its trailing zeros a decimal is the same number. -/
theorem Denotes.trim (h : d.Denotes n) (fuel : Nat) : (trim fuel d).Denotes n := by
  induction fuel generalizing d with
  | zero => exact h
  | succ fuel ih =>
    rw [Decimal.trim]
    split
    · next hzero =>
      apply ih
      obtain ⟨k, hexponent, hdigits⟩ := h
      refine ⟨k + 1, by rw [hexponent]; rfl, ?_⟩
      rw [Nat.pow_succ, Nat.mul_comm (10 ^ k), ← Nat.mul_assoc,
        Nat.div_mul_cancel (Nat.dvd_of_mod_eq_zero hzero.2), hdigits]
    · exact h

/-! ### Even numbers -/

/-- The interval of what is rounded to an even number, where odd numbers are not exact. -/
def evenInterval (n : Nat) (closed : Bool) : Interval := ⟨4 * n - 4, 4 * n, 4 * n + 4, 4, closed⟩

/-- Beyond `2 ^ 53` it is the interval of what is rounded to the number. -/
theorem around_beyond (hlow : 2 ^ 53 < n) (hhigh : n < 2 ^ 54) (heven : 2 ∣ n) :
    ∃ closed, Interval.around n 1 = evenInterval n closed := by
  obtain ⟨q, rfl⟩ := heven
  have hhalf : Number.roundScaled (2 * q) 1 (Int.ofNat 1) = q := by
    change Number.roundHalfEven (2 * q) 2 = q
    rw [Number.roundHalfEven_two]
    split_ifs <;> omega
  have hinner : ¬ (q = powerOfTwo 52 ∧ Int.ofNat 1 ≠ -1074) := by
    have hpow : powerOfTwo 52 = 2 ^ 52 := rfl
    omega
  have hunit : powerOfTwo 1 = 2 := rfl
  refine ⟨q % 2 == 0, ?_⟩
  unfold Interval.around evenInterval
  simp only [Number.unitExponent_beyond (Nat.le_of_lt hlow) hhigh, hhalf, if_neg hinner, hunit]
  rw [show (4 * q - 2) * 2 = 4 * (2 * q) - 4 by omega, show 4 * q * 2 = 4 * (2 * q) by omega,
    show (4 * q + 2) * 2 = 4 * (2 * q) + 4 by omega]

/-- Among even numbers the interval holds only its middle. -/
theorem contains_even (hn : 0 < n) (heven : 2 ∣ n) {closed : Bool} (hd : 2 ∣ d.digits * 10 ^ k)
    (hexponent : d.exponent = Int.ofNat k) (h : (evenInterval n closed).contains d = true) :
    d.digits * 10 ^ k = n := by
  have hpow : powTen d.exponent = (10 ^ k, 1) := by
    rw [hexponent]
    rfl
  unfold Interval.contains at h
  simp only [evenInterval, hpow, Nat.mul_one] at h
  cases closed with
  | false =>
    simp only [Bool.false_eq_true, if_false, Bool.and_eq_true, decide_eq_true_eq] at h
    omega
  | true =>
    simp only [if_true, Bool.and_eq_true, decide_eq_true_eq] at h
    omega

/-- What is found on a grid is on the grid and in the interval. -/
theorem onGrid_eq_some {i : Interval} {x : Int} {places : Nat} (h : i.onGrid x places = some d) :
    d.exponent = x - places ∧ i.contains d = true := by
  unfold Interval.onGrid at h
  dsimp only at h
  split at h
  · next hlower hupper =>
    split at h
    · cases h
      exact ⟨rfl, hupper⟩
    · cases h
      exact ⟨rfl, hlower⟩
  · next hlower _ =>
    cases h
    exact ⟨rfl, hlower⟩
  · next _ hupper =>
    cases h
    exact ⟨rfl, hupper⟩
  · cases h

/-- The grid of all digits has the number itself. -/
theorem onGrid_all (hn : 0 < n) (closed : Bool) (places : Nat) :
    (evenInterval n closed).onGrid places places = some ⟨n, 0⟩ := by
  have hpow : powTen 0 = (1, 1) := rfl
  have hdigits : (evenInterval n closed).value * (powTen 0).2 /
      ((evenInterval n closed).den * (powTen 0).1) = n := by
    change 4 * n * 1 / (4 * 1) = n
    omega
  have hlower : (evenInterval n closed).contains ⟨n, 0⟩ = true := by
    unfold Interval.contains
    simp only [evenInterval, hpow]
    cases closed with
    | false =>
      simp only [Bool.false_eq_true, if_false, Bool.and_eq_true, decide_eq_true_eq]
      omega
    | true =>
      simp only [if_true, Bool.and_eq_true, decide_eq_true_eq]
      omega
  -- the number is at no distance from itself, and the next one at a whole one
  have hnearer : (evenInterval n closed).nearerUpper ⟨n, 0⟩ = false := by
    unfold Interval.nearerUpper
    simp only [evenInterval, hpow, Bool.or_eq_false_iff, Bool.and_eq_false_iff, decide_eq_false_iff_not,
      beq_eq_false_iff_ne]
    omega
  unfold Interval.onGrid
  rw [Int.sub_self]
  dsimp only
  rw [hdigits, hlower]
  cases (evenInterval n closed).contains ⟨n + 1, 0⟩ with
  | true =>
    dsimp only
    rw [hnearer]
    rfl
  | false => rfl

/-- On each grid up to the last digit nothing is found but the number itself. -/
theorem onGrid_even (hn : 0 < n) (heven : 2 ∣ n) {closed : Bool} {length places : Nat}
    (hplaces : places ≤ length) (h : (evenInterval n closed).onGrid length places = some d) :
    d.Denotes n := by
  obtain ⟨k, rfl⟩ := Nat.exists_eq_add_of_le hplaces
  cases k with
  | zero =>
    rw [Nat.add_zero, onGrid_all hn] at h
    cases h
    exact ⟨0, rfl, Nat.mul_one n⟩
  | succ k =>
    obtain ⟨hexponent, hcontains⟩ := onGrid_eq_some h
    have hk : d.exponent = Int.ofNat (k + 1) := by
      rw [hexponent, Int.ofNat_eq_natCast]
      omega
    have hten : 2 ∣ d.digits * 10 ^ (k + 1) := by
      apply Nat.dvd_mul_left_of_dvd
      rw [Nat.pow_succ]
      exact Nat.dvd_mul_left_of_dvd (by decide) _
    exact ⟨k + 1, hk, contains_even hn heven hten hk hcontains⟩

theorem shortest_even (hn : 0 < n) (heven : 2 ∣ n) (closed : Bool) {length : Nat} (hpos : 0 < length)
    (hlength : length ≤ 17) : ((evenInterval n closed).shortest length).Denotes n := by
  -- the search does not go beyond the grid of all digits
  obtain ⟨rest, hrest⟩ := Nat.exists_eq_add_of_le hlength
  have hsome : ((List.range length).findSome? fun p =>
      (evenInterval n closed).onGrid length (p + 1)).isSome = true := by
    rw [List.findSome?_isSome_iff]
    refine ⟨length - 1, List.mem_range.2 (by omega), ?_⟩
    rw [Nat.sub_add_cancel hpos, onGrid_all hn]
    rfl
  obtain ⟨d, hd⟩ := Option.isSome_iff_exists.1 hsome
  obtain ⟨p, hp, hfound⟩ := List.exists_of_findSome?_eq_some hd
  have hnat : d.Denotes n := onGrid_even hn heven (List.mem_range.1 hp) hfound
  unfold Interval.shortest
  rw [hrest, List.range_add, List.findSome?_append, hd]
  exact hnat

end Decimal

namespace Number
variable {n : Nat}

theorem text_of_le (hn : n ≤ 2 ^ 53) : (Number.int n).text = toString n := by
  have hpow : powerOfTwo 53 = 2 ^ 53 := rfl
  change (if (n : Int).natAbs ≤ powerOfTwo 53 then toString (n : Int) else _) = _
  rw [if_pos (by omega)]
  rfl

theorem text_nat (hn : n ≤ maxSafe.toNat) : (Number.int n).text = toString n :=
  text_of_le (Nat.le_trans hn (by decide))

/-- Up to `2 ^ 54` a natural number that is a number has its digits as its text. -/
theorem text_even (hlow : 2 ^ 53 < n) (hhigh : n < 2 ^ 54) (heven : 2 ∣ n) :
    (Number.int n).text = toString n := by
  have hpos : 0 < n := by omega
  have hlength : (Nat.toDigits 10 n).length ≤ 17 :=
    (Nat.length_toDigits_le_iff (by decide) (by decide)).2 (by omega)
  have hmagnitude : Decimal.magnitude n 1 = ((Nat.toDigits 10 n).length : Int) := by
    unfold Decimal.magnitude
    have hone : 1 ≤ n := hpos
    rw [if_pos hone, Nat.div_one]
  have hdecimal : (Decimal.ofRatio n 1).Denotes n := by
    obtain ⟨closed, haround⟩ := Decimal.around_beyond hlow hhigh heven
    unfold Decimal.ofRatio
    rw [haround, hmagnitude]
    exact (Decimal.shortest_even hpos heven closed Nat.length_toDigits_pos hlength).trim 400
  have hlarge : ¬ (n : Int).natAbs ≤ powerOfTwo 53 := by
    have hpow : powerOfTwo 53 = 2 ^ 53 := rfl
    omega
  have hsign : ¬ (n : Int) < 0 := by omega
  change (if (n : Int).natAbs ≤ powerOfTwo 53 then _ else
    (if (n : Int) < 0 then "-" else "") ++ (Decimal.ofRatio n 1).text) = _
  rw [if_neg hlarge, if_neg hsign, hdecimal.text hpos (by omega), String.empty_append]

/-- The text of a natural number that is rounded has all digits of the rounded one. -/
theorem text_nearestNat (hn : n + 1 < 2 ^ 54) :
    (Number.int (nearestNat n)).text = toString (nearestNat n) := by
  by_cases hsmall : nearestNat n ≤ 2 ^ 53
  · exact text_of_le hsmall
  · obtain ⟨heven, hhigh⟩ : 2 ∣ nearestNat n ∧ nearestNat n < 2 ^ 54 := by
      revert hsmall
      unfold nearestNat
      rw [roundHalfEven_two]
      split_ifs <;> omega
    exact text_even (Nat.not_le.1 hsmall) hhigh heven

end Number
end PolyQuery
