import Mathlib.Algebra.Order.Field.Basic
import Mathlib.Algebra.Order.Ring.Rat
import Mathlib.Order.WithBot
import PolyQuery.Number

/-! The order of numbers. A number other than `nan` has a place among the rationals and the two
infinities, and numbers compare as their places do: `Number.lt_iff_place` and `Number.le_iff_place`.
A sum with a finite number is in this order again: `Number.isOrdered_add`. -/
namespace PolyQuery.Number
variable {a b c : Number}

/-- The numbers that are in order. `nan` is not, and a fraction is in lowest terms. -/
def IsOrdered : Number → Prop
  | .frac m _ => m % 2 = 1
  | .nan => False
  | _ => True

instance : DecidablePred IsOrdered
  | .frac m _ => inferInstanceAs (Decidable (m % 2 = 1))
  | .nan => isFalse id
  | .int _ => isTrue trivial
  | .negZero => isTrue trivial
  | .infinite _ => isTrue trivial

/-- The value of a finite number, and zero of the others. -/
def value (n : Number) : ℚ :=
  match n.ratio? with
  | some (m, d) => m / d
  | none => 0

/-- Where a number stands. -/
def place : Number → WithBot (WithTop ℚ)
  | .infinite true => ⊥
  | .infinite false => ((⊤ : WithTop ℚ) : WithBot (WithTop ℚ))
  | n => ((n.value : WithTop ℚ) : WithBot (WithTop ℚ))

theorem powerOfTwo_succ (k : ℕ) : powerOfTwo (k + 1) = powerOfTwo k * 2 := rfl

theorem powerOfTwo_pos (k : ℕ) : 0 < powerOfTwo k := Nat.pow_pos (by decide)

theorem ratio?_den_pos {m : ℤ} {d : ℕ} (h : a.ratio? = some (m, d)) : 0 < d := by
  cases a with
  | int n => cases h; decide
  | frac m k => cases h; exact powerOfTwo_pos _
  | negZero => cases h; decide
  | infinite negative => cases h
  | nan => cases h

/-- A number that is in order is infinite or has a value. -/
theorem infinite_or_finite (h : a.IsOrdered) :
    a = .infinite true ∨ a = .infinite false ∨ ∃ m d, a.ratio? = some (m, d) := by
  cases a with
  | int n => exact .inr (.inr ⟨n, 1, rfl⟩)
  | frac m k => exact .inr (.inr ⟨m, powerOfTwo (k + 1), rfl⟩)
  | negZero => exact .inr (.inr ⟨0, 1, rfl⟩)
  | infinite negative =>
    cases negative with
    | true => exact .inl rfl
    | false => exact .inr (.inl rfl)
  | nan => exact h.elim

theorem place_of_ratio? {m : ℤ} {d : ℕ} (h : a.ratio? = some (m, d)) :
    a.place = (((m / d : ℚ) : WithTop ℚ) : WithBot (WithTop ℚ)) := by
  have hvalue : a.value = m / d := by
    unfold value
    rw [h]
  cases a with
  | infinite negative => cases h
  | nan => cases h
  | _ => rw [← hvalue]; rfl

/-! ## Comparisons -/

section Finite
variable {m n : ℤ} {d e : ℕ}

theorem lt_of_ratio? (ha : a.ratio? = some (m, d)) (hb : b.ratio? = some (n, e)) :
    a.lt b = decide (m * e < n * d) := by
  cases a with
  | infinite negative => cases ha
  | nan => cases ha
  | _ =>
    cases b with
    | infinite negative => cases hb
    | nan => cases hb
    | _ => cases ha; cases hb; rfl

theorem infinite_eq (negative : Bool) (hb : b.ratio? = some (n, e)) :
    (infinite negative).eq b = false := by
  cases b with
  | infinite _ => cases hb
  | nan => cases hb
  | _ => rfl

theorem eq_infinite (negative : Bool) (ha : a.ratio? = some (m, d)) :
    a.eq (infinite negative) = false := by
  cases a with
  | infinite _ => cases ha
  | nan => cases ha
  | _ => rfl

theorem infinite_lt (negative : Bool) (hb : b.ratio? = some (n, e)) :
    (infinite negative).lt b = negative := by
  cases b with
  | infinite _ => cases hb
  | nan => cases hb
  | _ => rfl

theorem lt_infinite (negative : Bool) (ha : a.ratio? = some (m, d)) :
    a.lt (infinite negative) = !negative := by
  cases a with
  | infinite _ => cases ha
  | nan => cases ha
  | _ => rfl

end Finite

theorem lt_iff_place (ha : a.IsOrdered) (hb : b.IsOrdered) :
    a.lt b = true ↔ a.place < b.place := by
  rcases infinite_or_finite ha with rfl | rfl | ⟨m, d, hm⟩ <;>
    rcases infinite_or_finite hb with rfl | rfl | ⟨n, e, hn⟩
  -- from the lower infinity
  · exact ⟨fun h => (nomatch h), fun h => absurd h (lt_irrefl _)⟩
  · exact ⟨fun _ => WithBot.bot_lt_coe _, fun _ => rfl⟩
  · rw [infinite_lt true hn, place_of_ratio? hn]
    exact ⟨fun _ => WithBot.bot_lt_coe _, fun _ => rfl⟩
  -- from the upper infinity
  · exact ⟨fun h => (nomatch h), fun h => absurd h not_lt_bot⟩
  · exact ⟨fun h => (nomatch h), fun h => absurd h (lt_irrefl _)⟩
  · rw [infinite_lt false hn, place_of_ratio? hn]
    exact ⟨fun h => (nomatch h), fun h => absurd (WithBot.coe_lt_coe.1 h) not_top_lt⟩
  -- from a finite number
  · rw [lt_infinite true hm]
    exact ⟨fun h => (nomatch h), fun h => absurd h not_lt_bot⟩
  · rw [lt_infinite false hm, place_of_ratio? hm]
    exact ⟨fun _ => WithBot.coe_lt_coe.2 (WithTop.coe_lt_top _), fun _ => rfl⟩
  · rw [lt_of_ratio? hm hn, place_of_ratio? hm, place_of_ratio? hn, decide_eq_true_iff,
      WithBot.coe_lt_coe, WithTop.coe_lt_coe, div_lt_div_iff₀]
    · exact_mod_cast Iff.rfl
    · exact_mod_cast ratio?_den_pos hm
    · exact_mod_cast ratio?_den_pos hn

theorem cast_powerOfTwo_zero : ((powerOfTwo 0 : ℕ) : ℤ) = 1 := rfl

theorem cast_powerOfTwo_succ (k : ℕ) :
    ((powerOfTwo (k + 1) : ℕ) : ℤ) = (powerOfTwo k : ℤ) * 2 := by
  rw [powerOfTwo_succ, Nat.cast_mul]
  rfl

/-- Two fractions in lowest terms are equal only if they are the same. -/
theorem eq_of_cross {m n : ℤ} (hm : m % 2 = 1) (hn : n % 2 = 1) {j k : ℕ}
    (h : m * (powerOfTwo k : ℤ) = n * (powerOfTwo j : ℤ)) : m = n ∧ j = k := by
  -- both denominators lose one factor at a time; if only one is left, its side is even
  induction j generalizing k with
  | zero =>
    cases k with
    | zero =>
      rw [cast_powerOfTwo_zero] at h
      exact ⟨by omega, rfl⟩
    | succ k =>
      rw [cast_powerOfTwo_zero, cast_powerOfTwo_succ, ← mul_assoc] at h
      omega
  | succ j ih =>
    cases k with
    | zero =>
      rw [cast_powerOfTwo_zero, cast_powerOfTwo_succ, ← mul_assoc] at h
      omega
    | succ k =>
      rw [cast_powerOfTwo_succ, cast_powerOfTwo_succ, ← mul_assoc, ← mul_assoc] at h
      obtain ⟨rfl, rfl⟩ := ih (k := k) (by omega)
      exact ⟨rfl, rfl⟩

/-- A fraction in lowest terms is no integer. -/
theorem ne_of_cross {m : ℤ} (hm : m % 2 = 1) (n : ℤ) (k : ℕ) :
    m ≠ n * (powerOfTwo (k + 1) : ℤ) := by
  rw [cast_powerOfTwo_succ, ← mul_assoc]
  omega

theorem eq_of_ratio? (ha : a.IsOrdered) (hb : b.IsOrdered) {m n : ℤ} {d e : ℕ}
    (hm : a.ratio? = some (m, d)) (hn : b.ratio? = some (n, e)) :
    a.eq b = true ↔ m * e = n * d := by
  cases a with
  | infinite negative => cases hm
  | nan => cases hm
  | int i =>
    cases hm
    cases b with
    | infinite negative => cases hn
    | nan => cases hn
    | int i' =>
      cases hn
      show (Number.int m == Number.int n) = true ↔ _
      simp
    | frac i' k =>
      cases hn
      -- a fraction is in lowest terms, so it is no whole number
      have hne := ne_of_cross hb m k
      show (Number.int m == Number.frac n k) = true ↔ _
      simpa using fun h => hne h.symm
    | negZero =>
      cases hn
      show (m == 0) = true ↔ _
      simp
  | frac i j =>
    cases hm
    cases b with
    | infinite negative => cases hn
    | nan => cases hn
    | int i' =>
      cases hn
      have hne := ne_of_cross ha n j
      show (Number.frac m j == Number.int n) = true ↔ _
      simpa using hne
    | frac i' k =>
      cases hn
      show (Number.frac m j == Number.frac n k) = true ↔ _
      rw [beq_iff_eq, Number.frac.injEq]
      constructor
      · rintro ⟨rfl, rfl⟩
        rfl
      · intro h
        obtain ⟨hnumerators, hexponents⟩ := eq_of_cross ha hb h
        exact ⟨hnumerators, Nat.succ.inj hexponents⟩
    | negZero =>
      cases hn
      have hne := ne_of_cross ha 0 j
      show (false = true) ↔ _
      simpa using hne
  | negZero =>
    cases hm
    cases b with
    | infinite negative => cases hn
    | nan => cases hn
    | int i' =>
      cases hn
      show (n == 0) = true ↔ 0 * (1 : ℤ) = n * (1 : ℤ)
      rw [beq_iff_eq]
      omega
    | frac i' k =>
      cases hn
      have hne := ne_of_cross hb 0 k
      show (false = true) ↔ _
      simpa using fun h : 0 = n => hne (by simp [← h])
    | negZero =>
      cases hn
      show (true = true) ↔ _
      simp

/-- Numbers are equal when their places are. -/
theorem eq_iff_place (ha : a.IsOrdered) (hb : b.IsOrdered) :
    a.eq b = true ↔ a.place = b.place := by
  rcases infinite_or_finite ha with rfl | rfl | ⟨m, d, hm⟩ <;>
    rcases infinite_or_finite hb with rfl | rfl | ⟨n, e, hn⟩
  -- from the lower infinity
  · exact ⟨fun _ => rfl, fun _ => rfl⟩
  · exact ⟨fun h => (nomatch h), fun h => absurd h WithBot.bot_ne_coe⟩
  · rw [infinite_eq true hn, place_of_ratio? hn]
    exact ⟨fun h => (nomatch h), fun h => absurd h WithBot.bot_ne_coe⟩
  -- from the upper infinity
  · exact ⟨fun h => (nomatch h), fun h => absurd h WithBot.coe_ne_bot⟩
  · exact ⟨fun _ => rfl, fun _ => rfl⟩
  · rw [infinite_eq false hn, place_of_ratio? hn]
    exact ⟨fun h => (nomatch h), fun h => absurd (WithBot.coe_injective h) WithTop.top_ne_coe⟩
  -- from a finite number
  · rw [eq_infinite true hm, place_of_ratio? hm]
    exact ⟨fun h => (nomatch h), fun h => absurd h WithBot.coe_ne_bot⟩
  · rw [eq_infinite false hm, place_of_ratio? hm]
    exact ⟨fun h => (nomatch h), fun h => absurd (WithBot.coe_injective h) WithTop.coe_ne_top⟩
  · have hd : (d : ℚ) ≠ 0 := Nat.cast_ne_zero.2 (ratio?_den_pos hm).ne'
    have he : (e : ℚ) ≠ 0 := Nat.cast_ne_zero.2 (ratio?_den_pos hn).ne'
    rw [eq_of_ratio? ha hb hm hn, place_of_ratio? hm, place_of_ratio? hn, WithBot.coe_inj,
      WithTop.coe_inj, div_eq_div_iff hd he]
    exact_mod_cast Iff.rfl

theorem le_iff_place (ha : a.IsOrdered) (hb : b.IsOrdered) :
    a.le b = true ↔ a.place ≤ b.place := by
  rw [le, Bool.or_eq_true, lt_iff_place ha hb, eq_iff_place ha hb, le_iff_lt_or_eq]

/-- Of two numbers the first is less or the second at most as great. -/
theorem lt_eq_not_le (ha : a.IsOrdered) (hb : b.IsOrdered) : a.lt b = !b.le a := by
  rw [Bool.eq_iff_iff, Bool.not_eq_true', ← Bool.not_eq_true, lt_iff_place ha hb,
    le_iff_place hb ha, not_le]

theorem le_trans (ha : a.IsOrdered) (hb : b.IsOrdered) (hc : c.IsOrdered) (hab : a.le b = true)
    (hbc : b.le c = true) : a.le c = true := by
  rw [le_iff_place ha hb] at hab
  rw [le_iff_place hb hc] at hbc
  rw [le_iff_place ha hc]
  exact hab.trans hbc

/-! ## Sums -/

theorem lowestDyadic_odd {q k n j : ℕ} (h : lowestDyadic q k = (n, j + 1)) : n % 2 = 1 := by
  induction k generalizing q with
  | zero => cases h
  | succ k ih =>
    rw [lowestDyadic] at h
    split at h
    · exact ih h
    · cases h
      omega

theorem isOrdered_ofScaled (negative : Bool) (q : ℕ) (e : ℤ) :
    (ofScaled negative q e).IsOrdered := by
  unfold ofScaled
  split
  · cases negative <;> trivial
  · split
    · trivial
    · cases e with
      | ofNat up => trivial
      | negSucc down =>
        dsimp only
        split
        · trivial
        · next n k hlowest =>
          have hodd := lowestDyadic_odd hlowest
          show signed negative n % 2 = 1
          cases negative with
          | true => show -(n : ℤ) % 2 = 1; omega
          | false => show (n : ℤ) % 2 = 1; omega

theorem isOrdered_nearest (negative : Bool) (num den : ℕ) :
    (nearest negative num den).IsOrdered := by
  unfold nearest
  split
  · cases negative <;> trivial
  · exact isOrdered_ofScaled ..

theorem isOrdered_nearestRatio (num : ℤ) (den : ℕ) : (nearestRatio num den).IsOrdered := by
  cases num with
  | ofNat n => exact isOrdered_nearest ..
  | negSucc n => exact isOrdered_nearest ..

/-- A sum with an integer is in order. -/
theorem isOrdered_add (ha : a.IsOrdered) (hb : b.isInteger = true) : (a.add b).IsOrdered := by
  cases b with
  | frac m k => cases hb
  | infinite negative => cases hb
  | nan => cases hb
  | int n =>
    cases a with
    | nan => exact ha.elim
    | infinite negative => trivial
    | _ => exact isOrdered_nearestRatio ..
  | negZero =>
    cases a with
    | nan => exact ha.elim
    | infinite negative => trivial
    | negZero => trivial
    | _ => exact isOrdered_nearestRatio ..

end PolyQuery.Number
