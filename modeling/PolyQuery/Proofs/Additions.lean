import Mathlib.Algebra.GroupWithZero.Nat
import Mathlib.Data.List.Induction
import Mathlib.Data.List.Nodup
import PolyQuery.Proofs.Upgrade

/-! Capabilities as the union of what was added. Each call names a category and adds features to it, some
calls only where a version is at least their minimum. The mask of a category has the bits of all that was
added to it, and the categories are listed in the order in which they were first named:
`Capabilities.built_iff`. -/
namespace PolyQuery

namespace Mask
variable {a : Mask} {n i : Nat}

/-- The bits of a mask to which others were added. -/
theorem getLsbD_foldl_or (a : Mask) (flags : List Mask) (i : Nat) :
    (flags.foldl (· ||| ·) a).getLsbD i = true ↔
      a.getLsbD i = true ∨ ∃ f ∈ flags, f.getLsbD i = true := by
  induction flags generalizing a with
  | nil => simp
  | cons f flags ih =>
    rw [List.foldl_cons, ih, BitVec.getLsbD_or, Bool.or_eq_true, List.exists_mem_cons_iff, or_assoc]

theorem not_getLsbD_zero (i : Nat) : ¬ (0 : Mask).getLsbD i = true := by
  rw [BitVec.ofNat_eq_ofNat, BitVec.getLsbD_zero]
  exact Bool.false_ne_true

/-- A mask is zero when no bit is set. -/
theorem ne_zero_iff : a ≠ 0 ↔ ∃ i, a.getLsbD i = true := by
  constructor
  · intro h
    by_contra hnone
    refine h (BitVec.eq_of_getLsbD_eq fun i _ => ?_)
    rw [Bool.eq_iff_iff]
    exact iff_of_false (fun hi => hnone ⟨i, hi⟩) (not_getLsbD_zero i)
  · rintro ⟨i, hi⟩ rfl
    exact not_getLsbD_zero i hi

/-- The bits of a number that is a mask. -/
theorem getLsbD_ofNumber (hn : n < 2 ^ 31) : (Mask.ofNumber (.int n)).getLsbD i = n.testBit i := by
  change (BitVec.ofInt 32 n).getLsbD i = _
  rw [BitVec.ofInt_natCast, BitVec.getLsbD_ofNat]
  by_cases hi : i < 32
  · rw [decide_eq_true hi, Bool.true_and]
  · have hbeyond : n < 2 ^ i :=
      Nat.lt_of_lt_of_le hn (Nat.pow_le_pow_right (by decide) (by omega))
    rw [Nat.testBit_lt_two_pow hbeyond, Bool.and_false]

/-- A number below the sign is the mask that it is. -/
theorem ofNumber?_nat (hn : n < 2 ^ 31) :
    Mask.ofNumber? (.int n) = some (Mask.ofNumber (.int n)) := by
  have hsame : (BitVec.ofInt 32 n).toInt = n := by
    rw [BitVec.toInt_ofInt]
    exact Int.bmod_eq_of_le (by omega) (by omega)
  exact if_pos hsame

end Mask

namespace Capabilities

/-- A call that adds features, given as numbers, to a category: always, or where a version is at least a
minimum. -/
inductive Addition where
  | always (category : Category) (flags : List Nat)
  | since (version minimum : Version) (category : Category) (flags : List Nat)

namespace Addition

/-- The features that a call gives. -/
def flags : Addition → List Nat
  | .always _ flags => flags
  | .since _ _ _ flags => flags

/-- The category and the features that a call adds, none where the version is not reached. -/
def added? : Addition → Option (Category × List Nat)
  | .always category flags => some (category, flags)
  | .since version minimum category flags =>
    if version.atLeast minimum then some (category, flags) else none

theorem flags_of_added {call : Addition} {category : Category} {flags : List Nat}
    (h : call.added? = some (category, flags)) : call.flags = flags := by
  cases call with
  | always =>
    cases h
    rfl
  | since =>
    unfold added? at h
    dsimp only at h
    split at h
    · cases h
      rfl
    · cases h

/-- The masks that numbers are. -/
def masks (flags : List Nat) : List Mask := flags.map fun f : Nat => Mask.ofNumber (.int f)

/-- The capabilities after a call. -/
def apply (c : Capabilities) : Addition → Capabilities
  | .always category flags => c.add category (masks flags)
  | .since version minimum category flags => c.addSince version minimum category (masks flags)

/-- A call adds its features where it is in force, and nothing otherwise. -/
theorem apply_eq (c : Capabilities) (call : Addition) :
    apply c call = call.added?.elim c fun (category, flags) => c.add category (masks flags) := by
  cases call with
  | always category flags => rfl
  | since version minimum category flags =>
    unfold apply addSince added?
    dsimp only
    split <;> rfl

end Addition

/-- The capabilities that calls put together. -/
def built (calls : List Addition) : Capabilities := calls.foldl Addition.apply empty

/-- The categories to which calls added, in order. -/
def named (calls : List Addition) : List Category := calls.filterMap fun call => call.added?.map (·.1)

/-- What calls added to a category. -/
def addedTo (category : Category) (calls : List Addition) : List Nat :=
  (calls.filterMap Addition.added?).flatMap fun (k, flags) => if k = category then flags else []

section
variable {calls : List Addition} {call : Addition} {category k : Category} {flags : List Nat}

theorem built_concat (calls : List Addition) (call : Addition) :
    built (calls ++ [call]) = Addition.apply (built calls) call := by
  rw [built, List.foldl_append]
  rfl

theorem addedTo_concat (category : Category) (calls : List Addition) (call : Addition) :
    addedTo category (calls ++ [call]) = addedTo category calls ++ addedTo category [call] := by
  unfold addedTo
  rw [List.filterMap_append, List.flatMap_append]

theorem named_concat (calls : List Addition) (call : Addition) :
    named (calls ++ [call]) = named calls ++ named [call] := List.filterMap_append ..

/-- The mask of a category has all that was added to it. -/
theorem mask_built (category : Category) (calls : List Addition) :
    (built calls).mask category = (Addition.masks (addedTo category calls)).foldl (· ||| ·) 0 := by
  induction calls using List.reverseRecOn with
  | nil => rfl
  | append_singleton calls call ih =>
    rw [built_concat, addedTo_concat, Addition.apply_eq, Addition.masks, List.map_append,
      List.foldl_append]
    change _ = (Addition.masks _).foldl (· ||| ·) ((Addition.masks _).foldl (· ||| ·) 0)
    rw [← ih]
    cases hadded : call.added? with
    | none => simp [addedTo, hadded, Addition.masks]
    | some addition =>
      obtain ⟨k, flags⟩ := addition
      rw [Option.elim_some, mask_add]
      by_cases hk : category = k
      · rw [if_pos hk]
        simp [addedTo, hadded, hk]
      · rw [if_neg hk]
        simp [addedTo, hadded, Ne.symm hk, Addition.masks]

/-- The bits of the mask of a category are those that were added to it. -/
theorem getLsbD_mask_built (hflags : ∀ f ∈ addedTo category calls, f < 2 ^ 31) (i : Nat) :
    ((built calls).mask category).getLsbD i = true ↔
      ∃ f ∈ addedTo category calls, f.testBit i = true := by
  rw [mask_built, Mask.getLsbD_foldl_or, or_iff_right (Mask.not_getLsbD_zero i), Addition.masks]
  simp only [List.mem_map, exists_exists_and_eq_and]
  refine exists_congr fun f => and_congr_right fun hf => ?_
  rw [Mask.getLsbD_ofNumber (hflags f hf)]

theorem supports_iff {c : Capabilities} {m : Mask} : c.supports category m = true ↔
    m ≠ 0 ∧ ∀ i, m.getLsbD i = true → (c.mask category).getLsbD i = true := by
  unfold Capabilities.supports includes
  rw [Bool.and_eq_true, bne_iff_ne, beq_iff_eq, BitVec.and_comm]
  exact and_congr_right' Mask.subset_iff

/-! ## The order of the categories -/

/-- The categories of a list, each once, in the order in which they come first. -/
structure InFirstOrder (names keys : List Category) : Prop where
  once : keys.Nodup
  mem : ∀ k, k ∈ keys ↔ k ∈ names
  order : keys.Pairwise fun j k => names.idxOf j < names.idxOf k

/-- A category that comes again keeps its place, and a new one is the last. -/
theorem InFirstOrder.concat {names keys : List Category} (h : InFirstOrder names keys) (k : Category) :
    InFirstOrder (names ++ [k]) (if k ∈ keys then keys else keys ++ [k]) := by
  have hkept : keys.Pairwise fun i j => (names ++ [k]).idxOf i < (names ++ [k]).idxOf j := by
    refine h.order.imp_of_mem fun hi hj hlt => ?_
    rwa [List.idxOf_append_of_mem ((h.mem _).1 hi), List.idxOf_append_of_mem ((h.mem _).1 hj)]
  -- a category with bits already keeps its place, and a new one comes behind all others
  by_cases hk : k ∈ keys
  · rw [if_pos hk]
    refine ⟨h.once, fun j => ?_, hkept⟩
    rw [h.mem, List.mem_append, List.mem_singleton, or_iff_left_of_imp]
    rintro rfl
    exact (h.mem j).1 hk
  · rw [if_neg hk]
    refine ⟨?_, fun j => ?_, ?_⟩
    · exact List.nodup_append.2 ⟨h.once, List.nodup_singleton k, fun i hi j hj => by
        rintro rfl
        exact hk (List.mem_singleton.1 hj ▸ hi)⟩
    · rw [List.mem_append, List.mem_append, h.mem]
    · refine List.pairwise_append.2 ⟨hkept, List.pairwise_singleton .., fun i hi j hj => ?_⟩
      obtain rfl := List.mem_singleton.1 hj
      have hnew : j ∉ names := fun hj => hk ((h.mem j).2 hj)
      rw [List.idxOf_append_of_mem ((h.mem i).1 hi), List.idxOf_append_of_notMem hnew]
      exact Nat.lt_add_right _ (List.idxOf_lt_length_iff.2 ((h.mem i).1 hi))

theorem keys_putMask (category : Category) (m : Mask) (masks : List (Category × Mask)) :
    (putMask category m masks).map (·.1) =
      if category ∈ masks.map (·.1) then masks.map (·.1) else masks.map (·.1) ++ [category] := by
  induction masks with
  | nil => rfl
  | cons entry masks ih =>
    obtain ⟨k, n⟩ := entry
    by_cases hk : k = category
    · simp [putMask, hk]
    · rw [putMask, if_neg hk, List.map_cons, ih, List.map_cons]
      by_cases hmem : category ∈ masks.map (·.1)
      · rw [if_pos hmem, if_pos (List.mem_cons_of_mem _ hmem)]
      · rw [if_neg hmem, if_neg (List.not_mem_cons_of_ne_of_not_mem (Ne.symm hk) hmem)]
        rfl

/-- The categories with masks are those that were named, in order. -/
theorem inFirstOrder_built (calls : List Addition) :
    InFirstOrder (named calls) ((built calls).masks.map (·.1)) := by
  induction calls using List.reverseRecOn with
  | nil => exact ⟨List.nodup_nil, fun _ => Iff.rfl, .nil⟩
  | append_singleton calls call ih =>
    rw [built_concat, named_concat, Addition.apply_eq]
    cases hadded : call.added? with
    | none => simpa [named, hadded] using ih
    | some addition =>
      obtain ⟨k, flags⟩ := addition
      have hnamed : named [call] = [k] := by simp [named, hadded]
      rw [hnamed, Option.elim_some]
      change InFirstOrder _ ((putMask k _ (built calls).masks).map (·.1))
      rw [keys_putMask]
      exact ih.concat k

/-- The mask of an entry is that of its category, where no category has two. -/
theorem mask_of_mem {c : Capabilities} (hkeys : (c.masks.map (·.1)).Nodup) {entry : Category × Mask}
    (h : entry ∈ c.masks) : c.mask entry.1 = entry.2 := by
  obtain ⟨masks⟩ := c
  unfold mask
  dsimp only at *
  induction masks with
  | nil => cases h
  | cons first masks ih =>
    rw [List.map_cons, List.nodup_cons] at hkeys
    rw [List.lookup_cons]
    obtain rfl | h := List.mem_cons.1 h
    · rw [beq_self_eq_true]
      rfl
    · have hne : (entry.1 == first.1) = false :=
        beq_false_of_ne fun heq => hkeys.1 (heq ▸ List.mem_map_of_mem h)
      rw [hne]
      exact ih hkeys.2 h

/-- A category with a feature has a mask. -/
theorem mem_keys_of_supportsCategory {c : Capabilities} (h : c.supportsCategory category = true) :
    category ∈ c.masks.map (·.1) := by
  by_contra hmem
  have hlookup : c.masks.lookup category = none := by
    rw [List.lookup_eq_none_iff]
    intro entry hentry
    exact bne_iff_ne.2 fun heq => hmem (heq ▸ List.mem_map_of_mem hentry)
  rw [supportsCategory, mask, hlookup] at h
  exact absurd h (by decide)

/-- The categories that are listed are those that are there and have a feature. -/
theorem categories_eq {c : Capabilities} (hkeys : (c.masks.map (·.1)).Nodup) :
    c.categories = (c.masks.map (·.1)).filter c.supportsCategory := by
  rw [categories, List.filter_map]
  refine congrArg _ (List.filter_congr fun entry hentry => ?_)
  rw [Function.comp_apply, supportsCategory, mask_of_mem hkeys hentry]

end

/-- Capabilities have the features that were added, and no others: a mask is supported when it has a
bit and each of its bits was added, a category when something other than zero was added to it. The
categories with features are listed once each, in the order in which calls first added to them. -/
theorem built_iff {calls : List Addition}
    (hflags : ∀ call ∈ calls, ∀ f ∈ call.flags, f < 2 ^ 31) :
    (∀ category m, m < 2 ^ 31 →
      ((Mask.ofNumber? (.int (m : Nat))).any ((built calls).supports category) = true ↔
        m ≠ 0 ∧ ∀ i, m.testBit i = true → ∃ f ∈ addedTo category calls, f.testBit i = true)) ∧
    (∀ category, (built calls).supportsCategory category = true ↔
      ∃ f ∈ addedTo category calls, f ≠ 0) ∧
    (∀ category, category ∈ (built calls).categories ↔ ∃ f ∈ addedTo category calls, f ≠ 0) ∧
    (built calls).categories.Nodup ∧
    (built calls).categories.Pairwise fun c d =>
      (named calls).idxOf c < (named calls).idxOf d := by
  have hadded (category : Category) : ∀ f ∈ addedTo category calls, f < 2 ^ 31 := by
    intro f hf
    obtain ⟨⟨k, flags⟩, haddition, hf⟩ := List.mem_flatMap.1 hf
    obtain ⟨call, hcall, hcalled⟩ := List.mem_filterMap.1 haddition
    refine hflags call hcall f ?_
    rw [Addition.flags_of_added hcalled]
    dsimp only at hf
    split at hf
    · exact hf
    · cases hf
  have hfirst := inFirstOrder_built calls
  have hcategory (category : Category) : (built calls).supportsCategory category = true ↔
      ∃ f ∈ addedTo category calls, f ≠ 0 := by
    rw [supportsCategory, bne_iff_ne, ne_eq, ← ne_eq, Mask.ne_zero_iff]
    simp only [getLsbD_mask_built (hadded category)]
    constructor
    · rintro ⟨i, f, hf, hi⟩
      refine ⟨f, hf, ?_⟩
      rintro rfl
      rw [Nat.zero_testBit] at hi
      cases hi
    · rintro ⟨f, hf, hne⟩
      obtain ⟨i, hi⟩ := Nat.exists_testBit_of_ne_zero hne
      exact ⟨i, f, hf, hi⟩
  refine ⟨fun category m hm => ?_, hcategory, fun category => ?_, ?_, ?_⟩
  -- masks are compared bit by bit, and a bit is set in a category if one of the added flags has it
  · rw [Mask.ofNumber?_nat hm, Option.any_some, supports_iff, Mask.ne_zero_iff]
    simp only [Mask.getLsbD_ofNumber hm, getLsbD_mask_built (hadded category)]
    refine and_congr_left fun _ => ⟨?_, Nat.exists_testBit_of_ne_zero⟩
    rintro ⟨i, hi⟩ rfl
    rw [Nat.zero_testBit] at hi
    cases hi
  -- a category that is listed has bits, and one with bits was named by some call
  · rw [categories_eq hfirst.once, List.mem_filter, ← hcategory, and_iff_right_iff_imp]
    exact fun hsupported => mem_keys_of_supportsCategory hsupported
  · rw [categories_eq hfirst.once]
    exact hfirst.once.filter _
  · rw [categories_eq hfirst.once]
    exact hfirst.order.filter _

/-- Joins are named before they have a feature, operations on sets come in two calls, and of the features
that need a version one is not reached. -/
def staged : List Addition :=
  [.always .joinOperations [], .always .setOperations [1, 2],
    .since (.of 3 8 3) (.of 3 35 0) .returningClause [1],
    .since (.of 3 39 4) (.of 3 35 0) .cte [3], .always .setOperations [16],
    .always .joinOperations [1]]

theorem built_iff_staged :
    (∀ call ∈ staged, ∀ f ∈ call.flags, f < 2 ^ 31) ∧
    (∀ i, Nat.testBit 18 i = true → ∃ f ∈ [1, 2, 16], f.testBit i = true) ∧
    (built staged).supportsCategory .returningClause = false ∧
    (built staged).categories = [.joinOperations, .setOperations, .cte] ∧
    (built staged).categories.Pairwise fun c d =>
      (named staged).idxOf c < (named staged).idxOf d := by
  have hflags : ∀ call ∈ staged, ∀ f ∈ call.flags, f < 2 ^ 31 := by decide
  obtain ⟨hsupports, hcategory, -, -, horder⟩ := built_iff hflags
  have hset : (Mask.ofNumber? (.int (18 : Nat))).any ((built staged).supports .setOperations) = true := by
    decide +kernel
  refine ⟨hflags, ((hsupports .setOperations 18 (by decide)).1 hset).2, ?_, by decide +kernel, horder⟩
  rw [Bool.eq_false_iff, ne_eq, hcategory]
  rintro ⟨f, hf, -⟩
  exact absurd hf List.not_mem_nil

end Capabilities
end PolyQuery
