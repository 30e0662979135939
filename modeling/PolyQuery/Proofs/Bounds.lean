import PolyQuery.Proofs.Evaluation
import PolyQuery.Proofs.Numerals
import PolyQuery.Proofs.Validity
import PolyQuery.Proofs.WholeNumbers

/-! The bounds of a page as numbers and as texts. A bound is a natural number that is exact, and its
text is the decimal text of this number. What is written for the sum of two bounds is the decimal text
of the rounded sum: `Value.IsBound.text_plus_nearest`. -/
namespace PolyQuery

/-! ## Texts without spaces -/

namespace Number

theorem space_notMem_numeral {s : String} (h : Decimal.Numeral s) : ' ' ∉ s.toList := by
  have hall {cs : List Char} (hcs : cs.all Decimal.isPositional = true) : ' ' ∉ cs :=
    fun hmem => absurd (List.all_eq_true.1 hcs _ hmem) (by decide)
  cases h with
  | positional h =>
    rw [String.toList_ofList]
    exact hall h
  | exponent h _ hmark n =>
    rw [String.toList_ofList, List.mem_append, List.mem_append, not_or, not_or]
    refine ⟨⟨hall h, ?_⟩, hall (Decimal.all_isPositional_toDigits n)⟩
    rcases hmark with rfl | rfl <;> decide

theorem space_notMem_text (n : Number) : ' ' ∉ n.text.toList := by
  obtain ⟨s, hs, htext⟩ := n.written
  have hnone : ' ' ∉ s.toList := by
    cases hs with
    | numeral h => exact space_notMem_numeral h
    | infinity => decide
    | nan => decide
  rcases htext with htext | htext
  · rwa [htext]
  · rw [htext, String.toList_append]
    exact List.not_mem_cons_of_ne_of_not_mem (by decide) hnone

end Number

/-! ## Bounds -/

namespace Value

/-- The number of rows that a bound counts. -/
def count : Value → Nat
  | .number (.int n) => n.toNat
  | _ => 0

/-- The number of rows that an optional bound counts. -/
def countOf (bound : Option Value) : Nat := (bound.map count).getD 0

namespace IsBound
variable {d : Dialect} {v w : Value}

theorem number (h : v.IsBound) : ∃ n, v = .number n := by
  rcases h with rfl | ⟨n, hn, rfl⟩
  · exact ⟨_, rfl⟩
  · exact ⟨_, rfl⟩

theorem count_le (h : v.IsBound) : v.count ≤ Number.maxSafe.toNat := by
  rcases h with rfl | ⟨n, hn, rfl⟩
  · exact Nat.zero_le _
  · exact hn

theorem text (h : v.IsBound) : v.text = toString v.count := by
  rcases h with rfl | ⟨n, hn, rfl⟩
  · rfl
  · exact Number.text_nat hn

theorem isZero (h : v.IsBound) : Paging.isZero v = true ↔ v.count = 0 := by
  rcases h with rfl | ⟨n, hn, rfl⟩
  · exact ⟨fun _ => rfl, fun _ => rfl⟩
  · change ((n : Int) == 0) = true ↔ n = 0
    rw [beq_iff_eq, Int.natCast_eq_zero]

/-- What is written for the sum of two bounds counts the rows of both, up to rounding. -/
theorem text_plus_nearest (hv : v.IsBound) (hw : w.IsBound) :
    (Paging.plus v w).text = toString (Number.nearestNat (v.count + w.count)) := by
  have hmax : Number.maxSafe.toNat = 2 ^ 53 - 1 := by decide
  have hvle := hv.count_le
  have hwle := hw.count_le
  -- a zero with a sign is added like one without
  have hrounded : ((Number.int v.count).add (.int w.count)).text =
      toString (Number.nearestNat (v.count + w.count)) := by
    rw [Number.add_nat hvle hwle]
    exact Number.text_nearestNat (by omega)
  rcases hv with rfl | ⟨m, hm, rfl⟩
  · rcases hw with rfl | ⟨n, hn, rfl⟩
    · rfl
    · exact hrounded
  · rcases hw with rfl | ⟨n, hn, rfl⟩
    · exact hrounded
    · exact hrounded

/-- The sum of two bounds counts the rows of both. -/
theorem text_plus (hv : v.IsBound) (hw : w.IsBound)
    (hsum : v.count + w.count ≤ Number.maxSafe.toNat) :
    (Paging.plus v w).text = toString (v.count + w.count) := by
  have hexact := Number.nearestNat_eq_iff.2 (.inl (Nat.le_trans hsum (by decide)))
  rw [text_plus_nearest hv hw, hexact]

theorem lt_toNumber (h : v.IsBound) : (Number.int 0).lt v.toNumber = decide (0 < v.count) := by
  rcases h with rfl | ⟨n, hn, rfl⟩
  · rfl
  · have hlt : (0 : Int) * ((1 : Nat) : Int) < n * ((1 : Nat) : Int) ↔ 0 < n := by omega
    exact decide_eq_decide.2 hlt

/-- No bound has a space in its text. -/
theorem space_notMem (h : v.IsBound) : ' ' ∉ v.text.toList := by
  obtain ⟨n, rfl⟩ := h.number
  exact Number.space_notMem_text n

/-- Nor has a sum of bounds, whether it is exact or not. -/
theorem space_notMem_plus (hv : v.IsBound) (hw : w.IsBound) :
    ' ' ∉ (Paging.plus v w).text.toList := by
  obtain ⟨m, rfl⟩ := hv.number
  obtain ⟨n, rfl⟩ := hw.number
  exact Number.space_notMem_text (m.add n)

/-- No bound has the text that means no limit. -/
theorem text_ne_noLimit (h : v.IsBound) : some v.text ≠ d.noLimit := by
  have hcount := h.count_le
  rw [h.text]
  intro hnone
  have hread : d.noLimit.bind numeral? = some v.count := by
    rw [← hnone, Option.bind_some, numeral?_repr]
  unfold Dialect.noLimit at hread
  revert hread
  cases d.backend with
  | mysql | mariadb =>
    -- the greatest unsigned word of 64 bits stands for no limit, and is no exact number
    intro hread
    have hlarge : numeral? "18446744073709551615" = some 18446744073709551615 :=
      numeral?_repr 18446744073709551615
    have hmax : Number.maxSafe.toNat < 18446744073709551615 := by decide
    rw [Option.bind_some, hlarge] at hread
    have hequal := Option.some.inj hread
    omega
  | _ => rintro ⟨⟩

/-- A missing offset skips nothing. -/
theorem skipped {offset : Option Value} (hoffset : ∀ v, offset = some v → v.IsBound) :
    (Paging.skipped offset).IsBound ∧ (Paging.skipped offset).count = countOf offset := by
  cases offset with
  | none => exact ⟨.inr ⟨0, Nat.zero_le _, rfl⟩, rfl⟩
  | some v =>
    have hv := hoffset v rfl
    have hskip : Paging.skipped (some v) = v := by
      rcases hv with rfl | ⟨n, hn, rfl⟩ <;> rfl
    rw [hskip]
    exact ⟨hv, rfl⟩

end IsBound
end Value

end PolyQuery
