import PolyQuery.Proofs.Bounds
import PolyQuery.Proofs.Digits
import PolyQuery.Version

/-! Versions in texts. A version is written as three numerals with points between them, and it is read
again from any text in which no digit stands before it or directly behind it. A text without digits is
the only one in which no version is found: `Version.parse?_format`. -/
namespace PolyQuery

namespace Number
variable {n : Number} {cs rest : List Char}

/-- Numbers that count: safe integers that are not below zero. -/
structure Counts (n : Number) : Prop where
  safe : n.isSafeInteger = true
  nonnegative : (Number.int 0).le n = true

instance : DecidablePred Counts := fun n =>
  decidable_of_iff (n.isSafeInteger = true ∧ (Number.int 0).le n = true)
    ⟨fun h => ⟨h.1, h.2⟩, fun h => ⟨h.1, h.2⟩⟩

/-- A number that counts is a natural number, or zero with a sign. -/
theorem Counts.exists_nat (h : n.Counts) :
    ∃ k : Nat, k ≤ maxSafe.toNat ∧ (n = .int k ∨ n = .negZero ∧ k = 0) := by
  obtain ⟨hsafe, hnonnegative⟩ := h
  cases n with
  | int i =>
    have hbound : i.natAbs ≤ maxSafe.toNat := of_decide_eq_true hsafe
    have hle : 0 ≤ i := by
      simp only [le, lt, ratio?, eq, Bool.or_eq_true, decide_eq_true_eq, beq_iff_eq,
        Number.int.injEq] at hnonnegative
      omega
    exact ⟨i.natAbs, hbound, .inl (by rw [Int.natAbs_of_nonneg hle])⟩
  | negZero => exact ⟨0, Nat.zero_le _, .inr ⟨rfl, rfl⟩⟩
  | frac m k => cases hsafe
  | infinite negative => cases hsafe
  | nan => cases hsafe

/-- The text of a number that counts is a numeral. -/
theorem text_of_nat {k : Nat} (hk : k ≤ maxSafe.toNat) (hn : n = .int k ∨ n = .negZero ∧ k = 0) :
    n.text.toList = Nat.toDigits 10 k := by
  obtain rfl | ⟨rfl, rfl⟩ := hn
  · rw [text_nat hk]
    exact Nat.toList_repr
  · rfl

theorem eq_of_nat {k : Nat} (hn : n = .int k ∨ n = .negZero ∧ k = 0) :
    (Number.int k).eq n = true := by
  obtain rfl | ⟨rfl, rfl⟩ := hn
  · exact beq_self_eq_true (Number.int k)
  · rfl

/-- Digits up to something else are taken as they are. -/
theorem takeWhile_digits (hdigits : ∀ c ∈ cs, isDigit c = true)
    (hrest : ∀ c ∈ rest.head?, isDigit c = false) : (cs ++ rest).takeWhile isDigit = cs := by
  rw [List.takeWhile_append_of_pos hdigits]
  cases rest with
  | nil => exact List.append_nil cs
  | cons c rest =>
    rw [List.takeWhile_cons_of_neg (Bool.eq_false_iff.1 (hrest c rfl)), List.append_nil]

theorem dropWhile_digits (hdigits : ∀ c ∈ cs, isDigit c = true)
    (hrest : ∀ c ∈ rest.head?, isDigit c = false) : (cs ++ rest).dropWhile isDigit = rest := by
  rw [List.dropWhile_append_of_pos hdigits]
  cases rest with
  | nil => rfl
  | cons c rest => exact List.dropWhile_cons_of_neg (Bool.eq_false_iff.1 (hrest c rfl))

theorem isDigit_toDigits {k : Nat} : ∀ c ∈ Nat.toDigits 10 k, isDigit c = true :=
  fun c hc => (Quoting.isDigit_eq c).trans (isDigit_of_mem_toDigits c hc)

end Number

namespace Version
open Number
variable {v : Version} {front back : String} {cs rest : List Char} {k : Nat}

/-- The numeral of a safe number is the component that it is read as. -/
theorem component_toDigits (hk : k ≤ maxSafe.toNat) : component (Nat.toDigits 10 k) = .int k := by
  rw [component, decimalValue_eq isDigit_of_mem_toDigits, Nat.ofDigitChars_ten_toDigits]
  exact nearestRatio_nat hk

/-- Digits after a point are a component. -/
theorem pointed_digits (hdigits : ∀ c ∈ cs, isDigit c = true) (hcs : cs ≠ [])
    (hrest : ∀ c ∈ rest.head?, isDigit c = false) : pointed ('.' :: (cs ++ rest)) = (cs, rest) := by
  have hthere : cs.isEmpty = false := List.isEmpty_eq_false_iff.2 hcs
  rw [pointed, takeWhile_digits hdigits hrest, dropWhile_digits hdigits hrest, hthere]
  rfl

/-- Three numerals with points between them are read as the numbers. -/
theorem parse?_of_toList {text : String} {a b c : Nat} (ha : a ≤ maxSafe.toNat)
    (hb : b ≤ maxSafe.toNat) (hc : c ≤ maxSafe.toNat) (hfront : ∀ c ∈ cs, isDigit c = false)
    (hback : ∀ c ∈ rest.head?, isDigit c = false)
    (htext : text.toList = cs ++ (Nat.toDigits 10 a ++ '.' :: (Nat.toDigits 10 b ++
      '.' :: (Nat.toDigits 10 c ++ rest)))) : parse? text = some (.of a b c) := by
  have hpoint (tail : List Char) : ∀ c ∈ ('.' :: tail).head?, isDigit c = false := by
    rintro _ ⟨⟩
    rfl
  -- the text in front has no digits, so the first numeral begins behind it
  have hstart (tail : List Char) : (cs ++ (Nat.toDigits 10 a ++ tail)).dropWhile
      (fun c => !isDigit c) = Nat.toDigits 10 a ++ tail := by
    rw [List.dropWhile_append_of_pos fun c hc => by rw [hfront c hc]; rfl]
    obtain ⟨d, ds, hds⟩ := List.exists_cons_of_ne_nil (Nat.toDigits_ne_nil (n := a) (b := 10))
    have hd : isDigit d = true := isDigit_toDigits d (hds ▸ List.mem_cons_self)
    rw [hds, List.cons_append, List.dropWhile_cons_of_neg (by rw [hd]; decide)]
  have hthere : (Nat.toDigits 10 a).isEmpty = false :=
    List.isEmpty_eq_false_iff.2 Nat.toDigits_ne_nil
  unfold parse?
  rw [htext, hstart]
  dsimp only
  rw [takeWhile_digits isDigit_toDigits (hpoint _), dropWhile_digits isDigit_toDigits (hpoint _),
    hthere, pointed_digits isDigit_toDigits Nat.toDigits_ne_nil (hpoint _)]
  dsimp only
  rw [pointed_digits isDigit_toDigits Nat.toDigits_ne_nil hback, component_toDigits ha,
    component_toDigits hb, component_toDigits hc]
  rfl

/-- No version is found only where there is no digit. -/
theorem parse?_eq_none_iff (text : String) :
    parse? text = none ↔ ∀ c ∈ text.toList, isDigit c = false := by
  have hmajor : parse? text = none ↔
      ((text.toList.dropWhile fun c => !isDigit c).takeWhile isDigit) = [] := by
    unfold parse?
    dsimp only
    split
    · next h => exact iff_of_true rfl (List.isEmpty_iff.1 h)
    · next h => exact iff_of_false (fun h => nomatch h) fun hnil => h (List.isEmpty_iff.2 hnil)
  rw [hmajor]
  -- what is left after the characters that are no digits begins with a digit, or is empty
  generalize text.toList = cs
  induction cs with
  | nil => exact iff_of_true rfl fun _ hc => nomatch hc
  | cons c cs ih =>
    rw [List.forall_mem_cons]
    cases hc : isDigit c with
    | true =>
      rw [List.dropWhile_cons_of_neg (by rw [hc]; decide), List.takeWhile_cons_of_pos hc]
      exact iff_of_false (List.cons_ne_nil _ _) fun h => nomatch h.1
    | false =>
      rw [List.dropWhile_cons_of_pos (by rw [hc]; rfl), and_iff_right rfl]
      exact ih

theorem toList_format (v : Version) : v.format.toList =
    v.major.text.toList ++ '.' :: (v.minor.text.toList ++ '.' :: v.patch.text.toList) := by
  unfold format components
  simp [String.intercalate_cons_cons, String.toList_append]

/-- A version is read from its text within any other text that has no digit before it or directly
behind it. Of a zero the sign is lost, which versions do not tell. No version is found exactly in the texts
without digits. -/
theorem parse?_format :
    (∀ (v : Version) (front back : String), (∀ n ∈ v.components, n.Counts) →
      (∀ c ∈ front.toList, isDigit c = false) → (∀ c ∈ back.toList.head?, isDigit c = false) →
      ∃ w, parse? (front ++ v.format ++ back) = some w ∧ compare w v = .int 0 ∧
        (.negZero ∉ v.components → w = v)) ∧
    ∀ text, parse? text = none ↔ ∀ c ∈ text.toList, isDigit c = false := by
  refine ⟨fun v front back hcounts hfront hback => ?_, parse?_eq_none_iff⟩
  obtain ⟨major, minor, patch⟩ := v
  obtain ⟨a, ha, hmajor⟩ := (hcounts major (by simp [components])).exists_nat
  obtain ⟨b, hb, hminor⟩ := (hcounts minor (by simp [components])).exists_nat
  obtain ⟨c, hc, hpatch⟩ := (hcounts patch (by simp [components])).exists_nat
  refine ⟨.of a b c, ?_, ?_, ?_⟩
  · refine parse?_of_toList ha hb hc hfront hback ?_
    rw [String.toList_append, String.toList_append, toList_format, text_of_nat ha hmajor,
      text_of_nat hb hminor, text_of_nat hc hpatch]
    simp only [List.append_assoc, List.cons_append]
  · rw [compare, components, components, of]
    simp only [firstDifference, eq_of_nat hmajor, eq_of_nat hminor, eq_of_nat hpatch, if_true]
  · intro hsigned
    -- a component that is no negative zero is read back as it was
    have hplain {n : Number} {k : Nat} (hmem : n ∈ components ⟨major, minor, patch⟩)
        (hn : n = .int k ∨ n = .negZero ∧ k = 0) : .int k = n :=
      (hn.resolve_right fun h => hsigned (h.1 ▸ hmem)).symm
    rw [of, hplain (by simp [components]) hmajor, hplain (by simp [components]) hminor,
      hplain (by simp [components]) hpatch]

/-- A point may stand before a version, and a fourth numeral behind it. -/
theorem parse?_format_fourth :
    (∀ n ∈ (of 10 11 6).components, n.Counts) ∧
    (∀ c ∈ "server v.".toList, isDigit c = false) ∧ (∀ c ∈ ".5-log".toList.head?, isDigit c = false) ∧
    parse? ("server v." ++ (of 10 11 6).format ++ ".5-log") = some (of 10 11 6) := by
  have hcounts : ∀ n ∈ (of 10 11 6).components, n.Counts := by decide
  have hfront : ∀ c ∈ "server v.".toList, isDigit c = false := by
    have hnone : "server v.".toList.any isDigit = false := by decide
    exact fun c hc => Bool.eq_false_iff.2 (List.any_eq_false.1 hnone c hc)
  have hback : ∀ c ∈ ".5-log".toList.head?, isDigit c = false := by
    have hhead : ".5-log".toList.head? = some '.' := by decide
    rw [hhead]
    rintro _ ⟨⟩
    rfl
  obtain ⟨w, hread, -, hsame⟩ := parse?_format.1 (of 10 11 6) _ _ hcounts hfront hback
  refine ⟨hcounts, hfront, hback, ?_⟩
  rw [hread, hsame (by decide)]

end Version
end PolyQuery
