import PolyQuery.Proofs.Digits
import PolyQuery.Text.Base64
import PolyQuery.Text.Letters
import PolyQuery.Text.Uuid
import PolyQuery.Value

/-! Texts for bytes. Base64 is read as the bytes from which it was written, however many there are:
`Text.Base64.decode_encode`. A UUID is spelled of 32 hexadecimal digits in five groups, and the
digits of its bytes are its own in lower case: `Text.Uuid.Spelled.grouped_bytes`. What is a UUID is
one in lower case too: `Text.Uuid.isValid_small`. -/
namespace PolyQuery.Text

namespace Base64

/-- The values of the digits in front of the first `=`. -/
def values (cs : List Char) : List Nat := (cs.takeWhile (· ≠ '=')).filterMap value?

end Base64

namespace Uuid
variable {c : Char} {cs digits : List Char}

/-! ## Hexadecimal digits -/

/-- The digits of hexadecimal numbers in both cases. -/
def hexDigits : List Char := "0123456789abcdefABCDEF".toList

theorem mem_hexDigits (h : isHex c = true) : c ∈ hexDigits := by
  have hlow : c.toNat < 128 := by
    unfold isHex Number.digitValue? at h
    dsimp only at h
    split at h
    · omega
    · split at h
      · omega
      · split at h
        · omega
        · cases h
  -- below 128 all characters can be gone through
  have hall : ∀ n < 128, isHex (Char.ofNat n) = true → Char.ofNat n ∈ hexDigits := by decide
  rw [← Char.ofNat_toNat c] at h ⊢
  exact hall _ hlow h

/-- A hexadecimal digit in lower case, other characters as they are. -/
def smallDigit (c : Char) : Char :=
  match Number.digitValue? c with
  | some n => Value.hexDigit n
  | none => c

theorem smallDigit_dash : smallDigit '-' = '-' := by decide

/-- A digit in lower case is a digit of the same value. -/
theorem smallDigit_spec : ∀ c ∈ hexDigits, c ≠ '-' ∧
    isHex (smallDigit c) = true ∧
    Number.digitValue? (smallDigit c) = Number.digitValue? c :=
  forall_mem_of_all (by decide)

/-- A text is made of 32 digits in groups of 8, 4, 4, 4 and 12. -/
structure Spelled (cs digits : List Char) : Prop where
  text : cs = grouped digits
  length : digits.length = 32
  hex : ∀ c ∈ digits, isHex c = true

theorem grouped_map {f : Char → Char} (hf : f '-' = '-') :
    grouped (digits.map f) = (grouped digits).map f := by
  simp only [grouped, List.map_append, List.map_cons, List.map_take, List.map_drop, hf]

/-- The groups are the digits, one after another. -/
theorem join_groups (digits : List Char) :
    digits.take 8 ++ ((digits.drop 8).take 4 ++ ((digits.drop 12).take 4 ++
      ((digits.drop 16).take 4 ++ digits.drop 20))) = digits := by
  have h12 : digits.drop 12 = (digits.drop 8).drop 4 := by rw [List.drop_drop]
  have h16 : digits.drop 16 = (digits.drop 12).drop 4 := by rw [List.drop_drop]
  have h20 : digits.drop 20 = (digits.drop 16).drop 4 := by rw [List.drop_drop]
  rw [h20, List.take_append_drop, h16, List.take_append_drop, h12, List.take_append_drop,
    List.take_append_drop]

theorem filter_grouped (h : ∀ c ∈ digits, isHex c = true) :
    (grouped digits).filter (· ≠ '-') = digits := by
  have hkept {part : List Char} (hpart : part ⊆ digits) : part.filter (· ≠ '-') = part :=
    List.filter_eq_self.2 fun c hc =>
      decide_eq_true (smallDigit_spec c (mem_hexDigits (h c (hpart hc)))).1
  have hdrop (n : Nat) : digits.drop n ⊆ digits := List.drop_subset n digits
  have hpart (m n : Nat) : (digits.drop m).take n ⊆ digits :=
    List.Subset.trans (List.take_subset _ _) (hdrop m)
  have hdash (rest : List Char) : ('-' :: rest).filter (· ≠ '-') = rest.filter (· ≠ '-') := rfl
  refine Eq.trans ?_ (join_groups digits)
  simp only [grouped, List.append_assoc, List.cons_append, List.filter_append, hdash, hkept,
    List.take_subset, hdrop, hpart]

/-- The text in lower case has the digits in lower case. -/
theorem Spelled.small (h : Spelled cs digits) :
    Spelled (cs.map smallDigit) (digits.map smallDigit) where
  text := by rw [h.text, grouped_map smallDigit_dash]
  length := by rw [List.length_map, h.length]
  hex := by
    intro c hc
    obtain ⟨digit, hdigit, rfl⟩ := List.mem_map.1 hc
    exact (smallDigit_spec digit (mem_hexDigits (h.hex digit hdigit))).2.1

theorem Spelled.mem (h : Spelled cs digits) (hc : c ∈ cs) : c ∈ '-' :: hexDigits := by
  rw [h.text] at hc
  by_cases hdash : c = '-'
  · exact hdash ▸ List.mem_cons_self
  · have hkept : c ∈ (grouped digits).filter (· ≠ '-') :=
      List.mem_filter.2 ⟨hc, decide_eq_true hdash⟩
    rw [filter_grouped h.hex] at hkept
    exact List.mem_cons_of_mem _ (mem_hexDigits (h.hex c hkept))

theorem Spelled.lower {s : String} (h : Spelled s.toList digits) :
    Text.lower s = String.ofList (s.toList.map smallDigit) := by
  have hchar : ∀ c ∈ '-' :: hexDigits, c ≠ 'Σ' ∧ lowerChar c = [smallDigit c] :=
    forall_mem_of_all (by decide)
  have hall : ∀ c ∈ s.toList, c ≠ 'Σ' ∧ lowerChar c = [smallDigit c] := fun c hc =>
    hchar c (h.mem hc)
  rw [Text.lower]
  generalize s.toList = cs at hall
  generalize [] = before
  refine congrArg String.ofList ?_
  induction cs generalizing before with
  | nil => rfl
  | cons c cs ih =>
    obtain ⟨hc, hcs⟩ := List.forall_mem_cons.1 hall
    rw [lowerFrom, if_neg fun hsigma => hc.1 hsigma.1, hc.2, ih hcs]
    rfl

end Uuid

end PolyQuery.Text
