import Mathlib.Algebra.Order.Ring.Int
import Mathlib.Data.Nat.BitIndices
import Mathlib.Data.Nat.Bitwise
import PolyQuery.Capability

/-! The walk over the bits of a mask. It ends when a bit exceeds the mask, so it depends on what becomes
of the bit: doubled in a signed word it is a power of two up to `2 ^ 30`, then negative once, and zero for
ever. Masks below `2 ^ 30` are named bit by bit, and the greater ones of a word have no name:
`Capability.describe?_eq`. -/
namespace PolyQuery

/-- The name of the feature at a place of a mask, or the bit there in hexadecimal. -/
def Category.featureName (c : Category) (place : ℕ) : String :=
  (c.featureNames[place]?).getD ("0x" ++ String.ofList (Nat.toDigits 16 (2 ^ place)))

namespace Capability
variable {c : Category} {mask k n : ℕ} {bit : ℤ} {named : List String}

theorem bitName_two_pow (c : Category) (place : ℕ) : bitName c (2 ^ place) = c.featureName place := by
  have hbit : ((2 : ℤ) ^ place).toNat = 2 ^ place := Int.toNat_natCast (2 ^ place)
  unfold bitName Category.featureName
  simp only [hbit, Nat.log2_two_pow]
  cases c.featureNames[place]? with
  | none => rfl
  | some name => rfl

/-! ## Doubling in a word -/

theorem doubled_two_pow (hk : k < 30) : doubled (2 ^ k) = 2 ^ (k + 1) := by
  have hsmall : 2 ^ (k + 1) ≤ 2 ^ 30 := Nat.pow_le_pow_right (by decide) hk
  have hpos : 0 < 2 ^ (k + 1) := Nat.two_pow_pos _
  have hword : powerOfTwo 32 = 4 * 2 ^ 30 := rfl
  have hdouble : 2 * (2 : ℤ) ^ k = ((2 ^ (k + 1) : ℕ) : ℤ) := by
    rw [Nat.cast_pow, Nat.cast_ofNat, pow_succ, mul_comm]
  rw [doubled, hdouble, Int.bmod_eq_of_le (by omega) (by omega), Nat.cast_pow, Nat.cast_ofNat]

/-- The first bits are the powers of two that a signed word holds. -/
theorem iterate_doubled (hn : n ≤ 30) : doubled^[n] 1 = 2 ^ n := by
  induction n with
  | zero => rfl
  | succ n ih => rw [Function.iterate_succ_apply', ih (by omega), doubled_two_pow (by omega)]

/-- Behind them no bit is positive. -/
theorem iterate_doubled_nonpos (hn : 30 < n) : doubled^[n] 1 ≤ 0 := by
  have hwrapped : doubled^[31] 1 = -2 ^ 31 := by
    rw [Function.iterate_succ_apply', iterate_doubled (le_refl 30)]
    rfl
  have hzero (m : ℕ) : doubled^[m + 32] 1 = 0 := by
    induction m with
    | zero =>
      rw [Nat.zero_add, Function.iterate_succ_apply', hwrapped]
      rfl
    | succ m ih =>
      rw [Nat.add_right_comm, Function.iterate_succ_apply', ih]
      rfl
  obtain rfl | ⟨m, rfl⟩ : n = 31 ∨ ∃ m, n = m + 32 := by
    rcases Nat.lt_or_ge n 32 with h | h
    · exact .inl (by omega)
    · exact .inr ⟨n - 32, by omega⟩
  · rw [hwrapped]
    decide
  · exact le_of_eq (hzero m)

/-- A bit exceeds the mask sooner or later exactly if one below the sign does. -/
theorem exists_exceeding_iff (mask : ℕ) : (∃ n, (mask : ℤ) < doubled^[n] 1) ↔ mask < 2 ^ 30 := by
  constructor
  · rintro ⟨n, hn⟩
    by_cases hplace : n ≤ 30
    · rw [iterate_doubled hplace] at hn
      have hpow : 2 ^ n ≤ 2 ^ 30 := Nat.pow_le_pow_right (by decide) hplace
      exact Nat.lt_of_lt_of_le (by exact_mod_cast hn) hpow
    · have hsign := iterate_doubled_nonpos (Nat.not_le.1 hplace)
      omega
  · intro h
    refine ⟨30, ?_⟩
    rw [iterate_doubled (le_refl 30)]
    exact_mod_cast h

/-! ## The walk -/

/-- The walk ends exactly if some bit on its way exceeds the mask. -/
theorem bitNames_isSome_iff (c : Category) (mask : ℕ) (bit : ℤ) (named : List String) :
    (bitNames c mask bit named).isSome = true ↔ ∃ n, (mask : ℤ) < doubled^[n] bit := by
  constructor
  · intro h
    obtain ⟨names, hnames⟩ := Option.isSome_iff_exists.1 h
    -- what ends is what the walk of some finite length gives
    refine bitNames.partial_correctness c mask (fun bit _ _ => ∃ n, (mask : ℤ) < doubled^[n] bit) ?_
      bit named names hnames
    intro walk ih bit named names hwalk
    split at hwalk
    · obtain ⟨n, hn⟩ := ih _ _ _ hwalk
      exact ⟨n + 1, hn⟩
    · next hexceeds => exact ⟨0, Int.not_le.1 hexceeds⟩
  · rintro ⟨n, hn⟩
    induction n generalizing bit named with
    | zero =>
      have hexceeds : ¬ bit ≤ mask := Int.not_le.2 hn
      rw [bitNames, if_neg hexceeds]
      rfl
    | succ n ih =>
      rw [bitNames]
      split
      · exact ih _ _ hn
      · rfl

/-- A mask from one of its bits on: this bit, if it is set, and the rest. -/
theorem bitIndices_shiftRight (mask k : ℕ) : (mask >>> k).bitIndices.map (· + k) =
    (if mask.testBit k then [k] else []) ++ (mask >>> (k + 1)).bitIndices.map (· + (k + 1)) := by
  have hplaces : (fun i => i + k) ∘ (fun i => i + 1) = fun i => i + (k + 1) := by
    ext i
    exact Nat.add_right_comm i 1 k
  have hsplit : mask >>> k = 2 * (mask >>> (k + 1)) + (mask.testBit k).toNat := by
    rw [Nat.shiftRight_succ, Nat.toNat_testBit, ← Nat.shiftRight_eq_div_pow]
    exact (Nat.div_add_mod (mask >>> k) 2).symm
  cases hbit : mask.testBit k with
  | false =>
    rw [hsplit, hbit, Bool.toNat_false, Nat.add_zero, Nat.bitIndices_two_mul, List.map_map, hplaces]
    rfl
  | true =>
    rw [hsplit, hbit, Bool.toNat_true, Nat.bitIndices_two_mul_add_one, List.map_cons, List.map_map,
      hplaces, Nat.zero_add]
    rfl

/-- From a power of two on the walk names the bits that are set there. -/
theorem bitNames_two_pow (hmask : mask < 2 ^ 30) (hk : k + n = 30) (named : List String) :
    bitNames c mask (2 ^ k) named =
      some (named ++ ((mask >>> k).bitIndices.map (· + k)).map c.featureName) := by
  induction n generalizing k named with
  | zero =>
    obtain rfl : k = 30 := hk
    have hexceeds : ¬ (2 : ℤ) ^ 30 ≤ mask := by omega
    rw [bitNames, if_neg hexceeds, Nat.shiftRight_eq_zero mask 30 hmask, Nat.bitIndices_zero,
      List.map_nil, List.map_nil, List.append_nil]
  | succ n ih =>
    rw [bitNames]
    split
    · have hand : (mask &&& ((2 : ℤ) ^ k).toNat ≠ 0) ↔ mask.testBit k = true := by
        have hbit : ((2 : ℤ) ^ k).toNat = 2 ^ k := Int.toNat_natCast (2 ^ k)
        rw [hbit, Nat.and_two_pow]
        cases mask.testBit k <;> simp
      rw [doubled_two_pow (by omega), ih (by omega), bitIndices_shiftRight mask k]
      by_cases hset : mask.testBit k = true
      · rw [if_pos (hand.2 hset), if_pos hset, bitName_two_pow, List.append_assoc, List.map_append]
        rfl
      · rw [if_neg (mt hand.1 hset), if_neg hset, List.nil_append]
    · next hexceeds =>
      -- an earlier end: nothing is left of the mask
      have hless : mask < 2 ^ k := by exact_mod_cast Int.not_le.1 hexceeds
      rw [Nat.shiftRight_eq_zero mask k hless, Nat.bitIndices_zero, List.map_nil, List.map_nil,
        List.append_nil]

/-- Where no bit exceeds the mask there is no name. -/
theorem describe?_isSome_iff (c : Category) (mask : ℕ) :
    (describe? c mask).isSome = true ↔ mask < 2 ^ 30 := by
  rw [describe?, Option.isSome_map, bitNames_isSome_iff, exists_exceeding_iff]

/-- The walk over a mask ends exactly if the mask is below `2 ^ 30`, the last bit that doubling leaves
positive. Then the mask has a name: all its bits, from the lowest up, by their features or in hexadecimal.
Any other mask has none. -/
theorem describe?_eq (c : Category) (mask : ℕ) :
    ((∃ n, (mask : ℤ) < doubled^[n] 1) ↔ mask < 2 ^ 30) ∧
    describe? c mask =
      if mask < 2 ^ 30 then
        some (c.name ++ "." ++ "|".intercalate (mask.bitIndices.map c.featureName))
      else none := by
  refine ⟨exists_exceeding_iff mask, ?_⟩
  split
  · next hmask =>
    -- the walk starts at bit 0, with the whole mask still to name and nothing named yet
    have hwalk := bitNames_two_pow (c := c) (k := 0) hmask (Nat.zero_add 30) []
    have hplaces : mask.bitIndices.map (· + 0) = mask.bitIndices := List.map_id _
    rw [pow_zero, List.nil_append, Nat.shiftRight_zero, hplaces] at hwalk
    rw [describe?, hwalk]
    rfl
  · next hmask =>
    rw [← Option.not_isSome_iff_eq_none, describe?_isSome_iff]
    exact hmask

/-- The highest bit of a word below its sign has a name of its own, but the mask with this bit alone has
none: doubled for ever, the bit never exceeds it. -/
theorem describe?_highestBit :
    (2 ^ 30 : ℕ).bitIndices.map (Category.featureName .cte) = ["0x40000000"] ∧
    (∀ n, doubled^[n] 1 ≤ 2 ^ 30) ∧ describe? .cte (2 ^ 30) = none := by
  have hbeyond : ¬ (2 ^ 30 : ℕ) < 2 ^ 30 := Nat.lt_irrefl _
  refine ⟨?_, fun n => ?_, ?_⟩
  · rw [Nat.bitIndices_two_pow]
    decide +kernel
  · by_contra hexceeds
    exact hbeyond ((exists_exceeding_iff _).1 ⟨n, Int.not_le.1 hexceeds⟩)
  · rw [← Option.not_isSome_iff_eq_none, describe?_isSome_iff]
    exact hbeyond

end Capability
end PolyQuery
