import PolyQuery.Proofs.Bounds

/-! Integer parts of rounded quotients. A quotient of natural numbers is rounded before its integer
part is taken, which is off by one where the exact quotient is nearer to the next integer than half a
unit in the last place; everywhere else it is the exact integer part: `Number.floor_divNat`. -/
namespace PolyQuery.Number
variable {num den a b j k n q : Nat}

/-- Rounding goes up by half a unit at most. -/
theorem roundHalfEven_bounds (hb : 0 < b) :
    a / b ≤ roundHalfEven a b ∧ 2 * (roundHalfEven a b * b) ≤ 2 * a + b := by
  have hdiv : a / b * b + a % b = a := Nat.div_add_mod' a b
  have hnext : (a / b + 1) * b = a / b * b + b := Nat.succ_mul ..
  unfold roundHalfEven
  dsimp only
  split
  · omega
  · split
    · omega
    · split <;> omega

/-- The leading binary digit of a quotient is no higher than that of a bound. -/
theorem binaryExponent_le (hnum : num ≠ 0) (h : num < den * 2 ^ (j + 1)) :
    binaryExponent num den ≤ j := by
  have hdigits : Nat.log2 num ≤ Nat.log2 den + j + 1 := by
    refine Nat.le_of_lt_succ ((Nat.log2_lt hnum).2 (Nat.lt_trans h ?_))
    calc den * 2 ^ (j + 1) < 2 ^ (Nat.log2 den + 1) * 2 ^ (j + 1) :=
          Nat.mul_lt_mul_of_pos_right Nat.lt_log2_self (Nat.two_pow_pos _)
      _ = 2 ^ (Nat.log2 den + j + 1 + 1) := by rw [← Nat.pow_add]; congr 1; omega
  unfold binaryExponent
  dsimp only
  by_cases hfirst : (Nat.log2 num : Int) - Nat.log2 den ≤ j
  · split <;> omega
  · -- one digit too many means that the first power is not reached
    have hnext : (Nat.log2 num : Int) - Nat.log2 den = Int.ofNat (j + 1) := by
      rw [Int.ofNat_eq_natCast]
      omega
    have hbeyond : ¬ den * powerOfTwo (j + 1) ≤ num := Nat.not_le.2 h
    simp only [hnext, hbeyond, decide_false, Bool.false_eq_true, if_false]
    rw [Int.ofNat_eq_natCast]
    omega

/-- Lowest terms are the same quotient. -/
theorem lowestDyadic_eq (h : lowestDyadic q k = (n, j)) : j ≤ k ∧ q = n * 2 ^ (k - j) := by
  induction k generalizing q with
  | zero =>
    cases h
    exact ⟨Nat.le_refl _, (Nat.mul_one _).symm⟩
  | succ k ih =>
    rw [lowestDyadic] at h
    split at h
    · next heven =>
      obtain ⟨hle, hq⟩ := ih h
      refine ⟨Nat.le_succ_of_le hle, ?_⟩
      rw [Nat.succ_sub hle, Nat.pow_succ, ← Nat.mul_assoc, ← hq]
      exact (Nat.div_mul_cancel (Nat.dvd_of_mod_eq_zero heven)).symm
    · cases h
      exact ⟨Nat.le_refl _, by rw [Nat.sub_self, Nat.pow_zero, Nat.mul_one]⟩

theorem ofInt_nat (hn : n ≤ powerOfTwo 53) : ofInt n = .int n := if_pos hn

/-- The integer part of a number in units of a negative power of two. -/
theorem floor_ofScaled (down : Nat) (hq : q < 2 ^ 53 * 2 ^ (down + 1)) :
    (ofScaled false q (.negSucc down)).floor = .int ((q / 2 ^ (down + 1) : Nat) : Int) := by
  unfold ofScaled
  by_cases hzero : q = 0
  · rw [if_pos hzero, hzero, Nat.zero_div]
    rfl
  -- below 2^53 the number is finite, and so is its integer part
  have hbits : Nat.log2 q < 53 + (down + 1) := by
    rw [Nat.log2_lt hzero, Nat.pow_add]
    exact hq
  have hlow : ¬ 1024 ≤ (Nat.log2 q : Int) + Int.negSucc down := by omega
  rw [if_neg hzero, if_neg hlow]
  dsimp only
  split
  · next n hlowest =>
    obtain ⟨-, hq⟩ := lowestDyadic_eq hlowest
    rw [hq, Nat.sub_zero, Nat.mul_div_cancel _ (Nat.two_pow_pos _)]
    rfl
  · next n j hlowest =>
    obtain ⟨hle, heq⟩ := lowestDyadic_eq hlowest
    have hsplit : 2 ^ (down + 1) = 2 ^ (j + 1) * 2 ^ (down + 1 - (j + 1)) := by
      rw [← Nat.pow_add, Nat.add_sub_cancel' hle]
    have hquotient : q / 2 ^ (down + 1) = n / 2 ^ (j + 1) := by
      rw [heq, hsplit, Nat.mul_div_mul_right _ _ (Nat.two_pow_pos _)]
    have hsmall : n / 2 ^ (j + 1) ≤ powerOfTwo 53 := by
      rw [← hquotient]
      exact Nat.le_of_lt (Nat.div_lt_of_lt_mul (Nat.mul_comm .. ▸ hq))
    have hfloor : (frac (signed false n) j).floor = ofInt ((n / 2 ^ (j + 1) : Nat) : Int) :=
      congrArg ofInt (Int.ofNat_fdiv n (2 ^ (j + 1))).symm
    rw [hquotient, hfloor, ofInt_nat hsmall]

/-- Within the gap to the next integer a quotient in units has the integer part of the quotient. -/
theorem div_unit_eq {unit : Nat} (hden : 0 < den) (hlow : a * unit / den ≤ q)
    (hhigh : 2 * (q * den) ≤ 2 * (a * unit) + den) (hgap : den < 2 * ((den - a % den) * unit)) :
    q / unit = a / den ∧ q < (a / den + 1) * unit := by
  have hsplit : a * unit = a / den * den * unit + a % den * unit := by
    rw [← Nat.add_mul, Nat.div_add_mod']
  have hrest : (den - a % den) * unit = den * unit - a % den * unit := Nat.sub_mul ..
  have hless : a % den * unit ≤ den * unit :=
    Nat.mul_le_mul_right _ (Nat.le_of_lt (Nat.mod_lt _ hden))
  have hbelow : a / den * unit ≤ q := by
    refine Nat.le_trans ((Nat.le_div_iff_mul_le hden).2 ?_) hlow
    rw [Nat.mul_right_comm, hsplit]
    exact Nat.le_add_right ..
  have habove : q < (a / den + 1) * unit := by
    by_contra hreached
    have hmul := Nat.mul_le_mul_right den (Nat.not_lt.1 hreached)
    rw [Nat.mul_right_comm, Nat.succ_mul, Nat.add_mul] at hmul
    omega
  exact ⟨Nat.div_eq_of_lt_le hbelow habove, habove⟩

/-- A quotient below a power of two is rounded to a unit that leaves room for its fraction. Its
integer part is exact unless the next integer is nearer than half of this unit. -/
theorem floor_divNat (hden : 0 < den) (hj : j ≤ 51) (ha : a < den * 2 ^ (j + 1))
    (hgap : den < 2 * (den - a % den) * 2 ^ (52 - j)) :
    ((Number.int a).divNat den).floor = .int ((a / den : Nat) : Int) := by
  change (nearest false a (1 * den)).floor = _
  rw [Nat.one_mul]
  unfold nearest
  by_cases hzero : a = 0
  · rw [if_pos hzero, hzero, Nat.zero_div]
    rfl
  rw [if_neg hzero]
  have hexponent := binaryExponent_le hzero ha
  obtain ⟨down, hunit⟩ : ∃ down, unitExponent a den = Int.negSucc down :=
    Int.eq_negSucc_of_lt_zero (by unfold unitExponent; omega)
  have hdown : 52 - j ≤ down + 1 := by
    unfold unitExponent at hunit
    omega
  have hpow : 2 ^ (52 - j) ≤ 2 ^ (down + 1) := Nat.pow_le_pow_right (by decide) hdown
  dsimp only
  rw [hunit]
  change (ofScaled false (roundHalfEven (a * 2 ^ (down + 1)) den) _).floor = _
  obtain ⟨hlow, hhigh⟩ := roundHalfEven_bounds (a := a * 2 ^ (down + 1)) hden
  -- the gap to the next integer is more than half a unit, so rounding does not reach it
  have hroom : den < 2 * ((den - a % den) * 2 ^ (down + 1)) := by
    refine Nat.lt_of_lt_of_le hgap ?_
    rw [Nat.mul_assoc]
    exact Nat.mul_le_mul_left _ (Nat.mul_le_mul_left _ hpow)
  obtain ⟨hquotient, hbelow⟩ := div_unit_eq hden hlow hhigh hroom
  have hinteger : a / den < 2 ^ (j + 1) := Nat.div_lt_of_lt_mul ha
  have hinteger' : 2 ^ (j + 1) ≤ 2 ^ 53 := Nat.pow_le_pow_right (by decide) (by omega)
  rw [← hquotient]
  exact floor_ofScaled down
    (Nat.lt_of_lt_of_le hbelow (Nat.mul_le_mul_right _ (by omega)))

end PolyQuery.Number
