import PolyQuery.Proofs.Numerals
import PolyQuery.Sql.Compile

/-! Texts without brackets and without the quotes of names. Keywords and numbers are such texts, so
they neither end a quoted name nor a query between parentheses. -/
namespace PolyQuery

/-- A character that neither opens nor closes anything. -/
def isCalm (c : Char) : Bool :=
  c != '(' && c != ')' && c != '"' && c != '[' && c != ']' && c.toNat != 96

/-- A text of such characters. -/
def CalmText (s : String) : Prop := s.toList.all isCalm = true

theorem calmText_ofList {cs : List Char} (h : cs.all isCalm = true) :
    CalmText (String.ofList cs) := by
  unfold CalmText
  rw [String.toList_ofList]
  exact h

theorem CalmText.append {s t : String} (hs : CalmText s) (ht : CalmText t) :
    CalmText (s ++ t) := by
  unfold CalmText at *
  rw [String.toList_append, List.all_append, hs, ht]
  rfl

/-- A word between spaces. -/
theorem CalmText.spaced {s : String} (h : CalmText s) : CalmText (" " ++ s ++ " ") :=
  (CalmText.append (s := " ") (calmText_ofList rfl) h).append (t := " ") (calmText_ofList rfl)

theorem isCalm_of_toNat {c : Char} (h : c.toNat ∉ [34, 40, 41, 91, 93, 96]) : isCalm c = true := by
  have hne (x : Char) (hx : x.toNat ∈ [34, 40, 41, 91, 93, 96]) : (c != x) = true :=
    bne_iff_ne.2 fun heq => h (heq ▸ hx)
  have hlast : (c.toNat != 96) = true := bne_iff_ne.2 fun heq => h (by rw [heq]; decide)
  simp only [isCalm, hne '(' (by decide), hne ')' (by decide), hne '"' (by decide),
    hne '[' (by decide), hne ']' (by decide), hlast, Bool.and_self]

theorem isCalm_of_isPositional {c : Char} (h : Decimal.isPositional c = true) : isCalm c = true := by
  rw [Decimal.isPositional, Bool.or_eq_true, beq_iff_eq] at h
  rcases h with h | rfl
  · have hrange : 48 ≤ c.toNat ∧ c.toNat ≤ 57 := Char.isDigit_iff_toNat.1 h
    refine isCalm_of_toNat fun hmem => ?_
    simp only [List.mem_cons, List.not_mem_nil, or_false] at hmem
    omega
  · rfl

theorem calmText_numeral {s : String} (h : Decimal.Numeral s) : CalmText s := by
  have hall {cs : List Char} (hcs : cs.all Decimal.isPositional = true) : cs.all isCalm = true :=
    List.all_eq_true.2 fun c hc => isCalm_of_isPositional (List.all_eq_true.1 hcs c hc)
  cases h with
  | positional h => exact calmText_ofList (hall h)
  | exponent h _ hmark n =>
    refine calmText_ofList ?_
    rw [List.all_append, List.all_append, hall h, hall (Decimal.all_isPositional_toDigits n)]
    rcases hmark with rfl | rfl <;> rfl

/-- A number opens and closes nothing. -/
theorem calmText_number (n : Number) : CalmText n.text := by
  obtain ⟨s, hs, htext⟩ := n.written
  have hcalm : CalmText s := by
    cases hs with
    | numeral h => exact calmText_numeral h
    | infinity => exact calmText_ofList rfl
    | nan => exact calmText_ofList rfl
  rcases htext with htext | htext
  · rwa [htext]
  · rw [htext]
    exact CalmText.append (s := "-") (calmText_ofList rfl) hcalm

theorem calmText_noLimit {d : Dialect} {words : String} (h : d.noLimit = some words) :
    CalmText words := by
  unfold Dialect.noLimit at h
  split at h
  · cases h; exact calmText_ofList rfl
  · cases h; exact calmText_ofList rfl
  · cases h; exact calmText_ofList rfl
  · cases h

theorem calmText_bound (b : FrameBound) : CalmText b.text := by
  cases b with
  | unboundedPreceding => exact calmText_ofList rfl
  | preceding rows => exact (calmText_number rows).append (calmText_ofList rfl)
  | currentRow => exact calmText_ofList rfl
  | following rows => exact (calmText_number rows).append (calmText_ofList rfl)
  | unboundedFollowing => exact calmText_ofList rfl

theorem calmText_frame (f : Frame) : CalmText (Sql.frameText f) := by
  have hunit : CalmText f.unit.keyword := by cases f.unit <;> exact calmText_ofList rfl
  unfold Sql.frameText
  cases f.stop with
  | none => exact (hunit.append (calmText_ofList rfl)).append (calmText_bound f.start)
  | some stop =>
    exact (((hunit.append (calmText_ofList rfl)).append (calmText_bound f.start)).append
      (calmText_ofList rfl)).append (calmText_bound stop)

theorem calmText_symbol (op : BinaryOp) : CalmText op.symbol := by
  cases op <;> exact calmText_ofList rfl

theorem calmText_membershipKeyword (negated : Bool) : CalmText (Sql.membershipKeyword negated) := by
  cases negated <;> exact calmText_ofList rfl

theorem calmText_joinKeyword (kind : JoinKind) : CalmText kind.keyword := by
  cases kind <;> exact calmText_ofList rfl

theorem calmText_direction (direction : SortDirection) : CalmText direction.keyword := by
  cases direction <;> exact calmText_ofList rfl

theorem calmText_setOperator (d : Dialect) (op : SetOperator) :
    CalmText (d.setOperatorKeyword op.keyword) := by
  unfold Dialect.setOperatorKeyword
  split
  · exact calmText_ofList rfl
  · cases op <;> exact calmText_ofList rfl

end PolyQuery
