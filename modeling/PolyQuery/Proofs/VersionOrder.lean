import Mathlib.Data.Nat.Find
import Mathlib.Tactic.IntervalCases
import PolyQuery.Proofs.Quotients
import PolyQuery.Proofs.Upgrade

/-! Versions in single numbers. The digits of a number, taken two by two, and from 100000 on four and four,
are in the order of the numbers: `Version.digits_strictMono`. As long as quotients are not rounded up to the
next integer they are what a number is read as, so versions are in the order of their numbers and no
feature is lost with a higher number; the first numbers for which this fails are known:
`Version.ofNumber_order`. -/
namespace PolyQuery

namespace Number
variable {n : Nat}

/-- A natural number that is a number, and not only near to one. -/
def IsOwn (n : Nat) : Prop := ofInt n = .int n

instance : DecidablePred IsOwn := fun n => inferInstanceAs (Decidable (ofInt n = .int n))

/-- Above `2 ^ 53` only every second natural number is a number, above `2 ^ 54` only every fourth, and so
on. -/
theorem IsOwn.dvd (h : IsOwn n) {s : Nat} (hn : 2 ^ (52 + s) ≤ n) : 2 ^ s ∣ n := by
  have hzero : n ≠ 0 := Nat.ne_of_gt (Nat.lt_of_lt_of_le (Nat.two_pow_pos _) hn)
  have hlog : 52 + s ≤ Nat.log2 n := (Nat.le_log2 hzero).2 hn
  by_cases hsmall : n ≤ 2 ^ 53
  · -- then `s` is at most one, and one only for `2 ^ 53` itself
    have hs : 52 + s ≤ 53 := (Nat.pow_le_pow_iff_right (by decide)).1 (Nat.le_trans hn hsmall)
    obtain rfl | rfl : s = 0 ∨ s = 1 := by omega
    · exact Nat.one_dvd n
    · rw [Nat.le_antisymm hsmall hn]
      decide
  · obtain ⟨up, hup⟩ : ∃ up, Nat.log2 n = 52 + up := ⟨Nat.log2 n - 52, by omega⟩
    have hunit : unitExponent n 1 = Int.ofNat up := by
      rw [unitExponent, binaryExponent_one hzero, Int.ofNat_eq_natCast]
      omega
    have hrounded : ofScaled false (roundHalfEven n (1 * 2 ^ up)) (Int.ofNat up) = .int n := by
      have hnearest : ofInt n = nearest false n 1 := if_neg hsmall
      have hown : nearest false n 1 = .int n := hnearest.symm.trans h
      rw [nearest, if_neg hzero, hunit] at hown
      exact hown
    unfold ofScaled at hrounded
    split at hrounded
    · cases hrounded
      exact Nat.dvd_zero _
    · split at hrounded
      · cases hrounded
      · have heq : ((roundHalfEven n (1 * 2 ^ up) * 2 ^ up : Nat) : Int) = n :=
          Number.int.inj hrounded
        rw [← Int.natCast_inj.1 heq]
        exact Nat.dvd_mul_left_of_dvd (Nat.pow_dvd_pow 2 (by omega)) _

end Number

namespace Version
open Number

/-- The components that the digits of a number are. -/
def digits (n : ℕ) : ℕ ×ₗ ℕ ×ₗ ℕ :=
  if 100000 ≤ n then toLex (n / 10000, toLex (n % 10000, 0))
  else toLex (n / 10000, toLex (n / 100 % 100, n % 100))

theorem digits_strictMono : StrictMono digits := by
  intro a b h
  unfold digits
  split <;> split <;> simp only [Prod.Lex.toLex_lt_toLex] <;> omega

/-- The first number whose quotient by 10000 is rounded up to an integer. -/
def firstRounded : ℕ := 10000 * 2 ^ 44 + 9984

variable {a b n : ℕ}

/-- A number of its own has an exact integer part up to there. -/
theorem floor_divNat_of_isOwn (hown : IsOwn n) (hn : n < firstRounded) :
    ((Number.int n).divNat 10000).floor = .int ((n / 10000 : ℕ) : Int) := by
  have hbound : firstRounded = 175921860444169984 := by decide
  -- a number of `s` digits too many is divisible by `2 ^ s`, and its quotient has `13 - s` digits
  -- behind the point
  have hexists : ∃ s, n < 10000 * 2 ^ (40 + s) := ⟨5, by omega⟩
  obtain ⟨s, hs, hleast⟩ : ∃ s, n < 10000 * 2 ^ (40 + s) ∧ (s = 0 ∨ 10000 * 2 ^ (39 + s) ≤ n) := by
    refine ⟨Nat.find hexists, Nat.find_spec hexists, ?_⟩
    rcases hfind : Nat.find hexists with _ | s
    · exact .inl rfl
    · have hbelow := Nat.not_lt.1 (Nat.find_min hexists (m := s) (by omega))
      exact .inr (by rwa [show 40 + s = 39 + (s + 1) by omega] at hbelow)
  have hdvd : 2 ^ s ∣ n := by
    obtain rfl | hge := hleast
    · exact Nat.one_dvd n
    · refine hown.dvd (Nat.le_trans ?_ hge)
      rw [show 52 + s = 13 + (39 + s) by omega, Nat.pow_add]
      exact Nat.mul_le_mul_right _ (by decide)
  have hsmall : s ≤ 5 := by
    by_contra hlarge
    have hge := hleast.resolve_left (by omega)
    have hpow : 2 ^ 45 ≤ 2 ^ (39 + s) := Nat.pow_le_pow_right (by decide) (by omega)
    omega
  refine Number.floor_divNat (j := 39 + s) (by decide) (by omega) ?_ ?_
  · rwa [show 39 + s + 1 = 40 + s by omega]
  · interval_cases s <;> omega

/-- A number of its own is read as its digits up to there. -/
theorem ofNumber_eq (hown : IsOwn n) (hn : n < firstRounded) :
    ofNumber (.int n) = ofTriple (digits n) := by
  have hremainder (m d : ℕ) : (Number.int m).remNat d = .int ((m % d : ℕ) : Int) := by
    have hsigned : ¬ (Int.tmod m d = 0 ∧ (m : Int) < 0) := fun h => by omega
    exact if_neg hsigned
  have hmajor := floor_divNat_of_isOwn hown hn
  -- whole numbers are compared as they are, so only the quotients are rounded
  have hswitch : (Number.int 100000).le (.int n) = decide (100000 ≤ n) := by
    have hlt := int_lt 100000 n
    have heq := int_eq 100000 n
    rw [Nat.cast_ofNat] at hlt heq
    rw [le, hlt, heq, Bool.eq_iff_iff, Bool.or_eq_true, decide_eq_true_iff, decide_eq_true_iff,
      decide_eq_true_iff]
    omega
  unfold ofNumber digits
  rw [hmajor, hswitch]
  by_cases hlarge : 100000 ≤ n
  · rw [decide_eq_true hlarge, if_pos hlarge, if_pos rfl, hremainder]
    rfl
  · have hminor : ((Number.int n).divNat 100).floor = .int ((n / 100 : ℕ) : Int) :=
      Number.floor_divNat (j := 10) (by decide) (by decide) (by omega) (by omega)
    rw [decide_eq_false hlarge, if_neg hlarge, if_neg Bool.false_ne_true, hremainder, hminor, hremainder]
    rfl

/-- The triple that a number is read as up to there. -/
def reading (n : ℕ) : ℕ ×ₗ ℕ ×ₗ ℕ :=
  if n < firstRounded then digits n else toLex (2 ^ 44 + 1, toLex (9984, 0))

theorem ofNumber_eq_reading (hown : IsOwn n) (hn : n ≤ firstRounded) :
    ofNumber (.int n) = ofTriple (reading n) := by
  unfold reading
  split
  · next hless => exact ofNumber_eq hown hless
  · next hless =>
    rw [Nat.le_antisymm hn (Nat.not_lt.1 hless)]
    decide +kernel

theorem reading_strictMonoOn : StrictMonoOn reading (Set.Iic firstRounded) := by
  intro a _ b hb h
  have ha : a < firstRounded := Nat.lt_of_lt_of_le h hb
  unfold reading
  rw [if_pos ha]
  split
  · exact digits_strictMono h
  · calc digits a < digits firstRounded := digits_strictMono ha
      _ < toLex (2 ^ 44 + 1, toLex (9984, 0)) := by decide +kernel

theorem mem_of_firstDifference {as bs : List Number} {x y : Number}
    (h : firstDifference as bs = some (x, y)) : x ∈ as ∧ y ∈ bs := by
  induction as generalizing bs with
  | nil => cases h
  | cons c as ih =>
    cases bs with
    | nil => cases h
    | cons d bs =>
      rw [firstDifference] at h
      split at h
      · obtain ⟨hx, hy⟩ := ih h
        exact ⟨List.mem_cons_of_mem _ hx, List.mem_cons_of_mem _ hy⟩
      · cases h
        exact ⟨List.mem_cons_self, List.mem_cons_self⟩

/-- The components are exact numbers. -/
def Exact (v : ℕ ×ₗ ℕ ×ₗ ℕ) : Prop :=
  ∀ k : ℕ, Number.int k ∈ (ofTriple v).components → k ≤ maxSafe.toNat

theorem reading_exact (hn : n ≤ firstRounded) : Exact (reading n) := by
  have hbound : firstRounded = 175921860444169984 := by decide
  have hsafe : maxSafe.toNat = 9007199254740991 := by decide
  intro k hk
  simp only [ofTriple, of, components, List.mem_cons, Number.int.injEq, Int.natCast_inj,
    List.not_mem_nil, or_false] at hk
  unfold reading digits at hk
  rw [hsafe]
  split at hk
  · split at hk <;> simp only [ofLex_toLex] at hk <;> omega
  · simp only [ofLex_toLex] at hk
    omega

/-- The comparison is negative for exact versions one after the other. -/
theorem compare_lt_zero {v w : ℕ ×ₗ ℕ ×ₗ ℕ} (hv : Exact v) (hw : Exact w) :
    ((ofTriple v).compare (ofTriple w)).lt (.int 0) = true ↔ v < w := by
  unfold Version.compare
  obtain ⟨rfl, hsame⟩ | ⟨x, y, hfirst, -, hlt⟩ := firstDifference_ofTriple v w
  · rw [hsame]
    exact iff_of_false Bool.false_ne_true (lt_irrefl v)
  · obtain ⟨hx, hy⟩ := mem_of_firstDifference hfirst
    rw [hfirst, hlt]
    dsimp only
    rw [sub_nat (hv x hx) (hw y hy)]
    simp [lt, ratio?]

/-- Up to the first number whose quotient is rounded up, versions are in the order of their numbers, and
each feature that the server of a number has the server of a higher number has too. -/
theorem ofNumber_order (ha : IsOwn a) (hb : IsOwn b) (hale : a ≤ firstRounded) (hble : b ≤ firstRounded) :
    (((ofNumber (.int a)).compare (ofNumber (.int b))).lt (.int 0) = true ↔ a < b) ∧
    ((ofNumber (.int a)).atLeast (ofNumber (.int b)) = true ↔ b ≤ a) ∧
    (∀ (c : Capabilities) (category : Category) (flags : List Mask),
      c.addSince (ofNumber (.int a)) (ofNumber (.int b)) category flags =
        if b ≤ a then c.add category flags else c) ∧
    (b ≤ a →
      (∀ x y z : ℕ, (ofNumber (.int b)).atLeast (.of x y z) = true →
        (ofNumber (.int a)).atLeast (.of x y z) = true) ∧
      (Dialect.make .postgres (some (ofNumber (.int b)))).capabilities.Within
        (Dialect.make .postgres (some (ofNumber (.int a)))).capabilities) := by
  -- up to the first rounded number the reading is strictly monotone, and all four parts follow from
  -- that
  have hle : reading b ≤ reading a ↔ b ≤ a := reading_strictMonoOn.le_iff_le hble hale
  have hatLeast : (ofNumber (.int a)).atLeast (ofNumber (.int b)) = true ↔ b ≤ a := by
    rw [ofNumber_eq_reading ha hale, ofNumber_eq_reading hb hble, atLeast_iff, hle]
  refine ⟨?_, hatLeast, fun c category flags => if_congr hatLeast rfl rfl, fun h => ?_⟩
  · rw [ofNumber_eq_reading ha hale, ofNumber_eq_reading hb hble,
      compare_lt_zero (reading_exact hale) (reading_exact hble)]
    exact reading_strictMonoOn.lt_iff_lt hale hble
  · rw [ofNumber_eq_reading ha hale, ofNumber_eq_reading hb hble]
    exact ⟨fun x y z => atLeast_mono (m := toLex (x, toLex (y, z))) (hle.2 h),
      Backend.postgres.capabilities_within (hle.2 h)⟩

/-- The last number of three components and the first one of two. -/
theorem ofNumber_order_switch :
    IsOwn 100000 ∧ IsOwn 99999 ∧ 100000 ≤ firstRounded ∧ 99999 ≤ firstRounded ∧
    ofNumber (.int 100000) = .of 10 0 0 ∧ ofNumber (.int 99999) = .of 9 99 99 ∧
    (ofNumber (.int 100000)).atLeast (ofNumber (.int 99999)) = true := by
  have hnew : IsOwn 100000 := by decide
  have hold : IsOwn 99999 := by decide
  have hnew' : 100000 ≤ firstRounded := by decide
  have hold' : 99999 ≤ firstRounded := by decide
  exact ⟨hnew, hold, hnew', hold', by decide +kernel, by decide +kernel,
    (ofNumber_order hnew hold hnew' hold').2.1.2 (by decide)⟩

/-- The first number whose quotient is rounded up is read as a version after that of the next number. -/
theorem atLeast_next_firstRounded :
    IsOwn firstRounded ∧ IsOwn (firstRounded + 32) ∧ firstRounded < firstRounded + 32 ∧
    ofNumber (.int firstRounded) = .of (2 ^ 44 + 1) 9984 0 ∧
    ofNumber (.int (firstRounded + 32 : ℕ)) = .of (2 ^ 44 + 1) 16 0 ∧
    ((ofNumber (.int firstRounded)).compare (ofNumber (.int (firstRounded + 32 : ℕ)))).lt (.int 0) =
      false ∧
    (ofNumber (.int firstRounded)).atLeast (ofNumber (.int (firstRounded + 32 : ℕ))) = true := by
  decide +kernel

end Version
end PolyQuery
