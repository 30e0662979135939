import Mathlib.Algebra.GroupWithZero.Nat
import PolyQuery.Calendar

/-! The calendar and the texts of instants. An era of 400 years has centuries, cycles of four years,
and years, whose days are counted from the first of March (`Calendar.EraDay`), and so a day is found
again from its year, month and day: `Calendar.daysOfCivil_civilOfDays`. The fields of an ISO text have
fixed widths but for the year in front, so it is the text of one instant:
`Calendar.isoText_injective`. -/
namespace PolyQuery.Calendar

/-! ## Days of an era -/

/-- A day of an era: the century, the cycle in it, the year in this and the day in this. Only the
last year of a cycle has a day more than 365, and not that of the last cycle of a century, unless
this is the last century. -/
structure EraDay (e c q t d : Int) : Prop where
  day : e = 36524 * c + 1461 * q + 365 * t + d
  century : 0 ≤ c ∧ c ≤ 3
  cycle : 0 ≤ q ∧ q ≤ 24
  year : 0 ≤ t ∧ t ≤ 3
  rest : 0 ≤ d ∧ d ≤ 365
  leap : d = 365 → t = 3 ∧ (q < 24 ∨ c = 3)

theorem exists_eraDay {e : Int} (h0 : 0 ≤ e) (h : e < 146097) : ∃ c q t d, EraDay e c q t d := by
  -- the last century of an era is a day longer, and so is the last year of a cycle
  obtain ⟨c, hc0, hc, hfirst, hlast⟩ :
      ∃ c, 0 ≤ c ∧ c ≤ 3 ∧ 36524 * c ≤ e ∧ (e < 36524 * c + 36524 ∨ c = 3) := by
    by_cases hend : e < 109572
    · exact ⟨e / 36524, by omega⟩
    · exact ⟨3, by omega⟩
  obtain ⟨q, x, hq0, hq, he, hx0, hx, hleap⟩ : ∃ q x, 0 ≤ q ∧ q ≤ 24 ∧
      e = 36524 * c + 1461 * q + x ∧ 0 ≤ x ∧ x ≤ 1460 ∧ (x = 1460 → q < 24 ∨ c = 3) :=
    ⟨(e - 36524 * c) / 1461, (e - 36524 * c) % 1461, by omega⟩
  by_cases hend : x < 1095
  · exact ⟨c, q, x / 365, x % 365, by omega, by omega, by omega, by omega, by omega, by omega⟩
  · exact ⟨c, q, 3, x - 1095, by omega, by omega, by omega, by omega, by omega, by omega⟩

/-- The year of a day, from the days alone: the days that centuries, cycles and leap years have more
or less than 365 in a year are taken away first. -/
theorem EraDay.yearOfEra {e c q t d : Int} (h : EraDay e c q t d) :
    (e - e / 1460 + e / 36524 - e / 146096) / 365 = 100 * c + 4 * q + t := by
  obtain ⟨rfl, hc, hq, ht, hd, hleap⟩ := h
  -- within its century a day is one of 36524, but for the last day of an era
  have hlast : 1461 * q + 365 * t + d < 36524 ∨ c = 3 ∧ 1461 * q + 365 * t + d = 36524 := by
    omega
  -- the leap days so far reach a whole cycle only in its last year, and then the day is not the first
  have hday : (24 * c + q + 365 * t + d) / 1460 = 0 ∧ d ≤ 364 ∨
      (24 * c + q + 365 * t + d) / 1460 = 1 ∧ 1 ≤ d := by
    omega
  generalize hw : 1461 * q + 365 * t + d = w at hlast
  have he : 36524 * c + 1461 * q + 365 * t + d = 36524 * c + w := by omega
  have hcycles : (36524 * c + w) / 1460 = 25 * c + q + (24 * c + q + 365 * t + d) / 1460 := by
    omega
  have hcenturies : (36524 * c + w) / 36524 - (36524 * c + w) / 146096 = c := by
    rcases hlast with hend | ⟨rfl, rfl⟩
    · have hfirst : (36524 * c + w) / 36524 = c := by omega
      have hsecond : (36524 * c + w) / 146096 = 0 := by omega
      omega
    · rfl
  rw [he]
  omega

/-- The day in its year, counted from the first of March. -/
theorem EraDay.dayOfYear {e c q t d : Int} (h : EraDay e c q t d) :
    e - (365 * (100 * c + 4 * q + t) + (100 * c + 4 * q + t) / 4 - (100 * c + 4 * q + t) / 100) =
      d := by
  obtain ⟨rfl, hc, hq, ht, hd, -⟩ := h
  have hleap : (100 * c + 4 * q + t) / 4 = 25 * c + q := by omega
  have hcentury : (100 * c + 4 * q + t) / 100 = c := by omega
  rw [hleap, hcentury]
  omega

/-- The month, counted from March: five months have 153 days. -/
theorem EraDay.month {e c q t d : Int} (h : EraDay e c q t d) :
    0 ≤ (5 * d + 2) / 153 ∧ (5 * d + 2) / 153 ≤ 11 := by
  have hd := h.rest
  omega

/-- The year, month and day of a day of an era. The months are counted from March, so January and
February are those of the next year. -/
theorem civilOfDays_eraDay {e c q t d : Int} (h : EraDay e c q t d) (era : Int) :
    civilOfDays (era * 146097 + e - 719468) =
      (if (5 * d + 2) / 153 < 10 then era * 400 + (100 * c + 4 * q + t)
        else era * 400 + (100 * c + 4 * q + t) + 1,
      if (5 * d + 2) / 153 < 10 then (5 * d + 2) / 153 + 3 else (5 * d + 2) / 153 - 9,
      d - (153 * ((5 * d + 2) / 153) + 2) / 5 + 1) := by
  have hday : era * 146097 + e - 719468 + 719468 = era * 146097 + e := by omega
  have hera : (era * 146097 + e).fdiv 146097 = era := by
    have he : 0 ≤ e ∧ e < 146097 := by
      obtain ⟨rfl, hc, hq, ht, hd, hleap⟩ := h
      omega
    rw [Int.fdiv_eq_ediv_of_nonneg _ (by decide)]
    omega
  have hrest : era * 146097 + e - era * 146097 = e := by omega
  have hmonth := h.month
  unfold civilOfDays
  dsimp only
  rw [hday, hera, hrest, h.yearOfEra, h.dayOfYear, Int.add_comm (100 * c + 4 * q + t)]
  generalize (5 * d + 2) / 153 = m at hmonth ⊢
  -- January and February belong to the next year
  by_cases hm : m < 10
  · rw [if_pos hm, if_pos hm, if_neg (by omega)]
  · rw [if_neg hm, if_neg hm, if_pos (by omega)]

/-- Every day is one of an era. -/
theorem eraDay_of_days (days : Int) : ∃ era e c q t d, EraDay e c q t d ∧
    days = era * 146097 + e - 719468 := by
  obtain ⟨c, q, t, d, h⟩ := exists_eraDay (e := (days + 719468) % 146097)
    (Int.emod_nonneg _ (by decide)) (Int.emod_lt_of_pos _ (by decide))
  exact ⟨(days + 719468) / 146097, _, c, q, t, d, h, by omega⟩

/-- Months and days are numbered from one. -/
theorem civilOfDays_bounds (days : Int) :
    (1 ≤ (civilOfDays days).2.1 ∧ (civilOfDays days).2.1 ≤ 12) ∧
      1 ≤ (civilOfDays days).2.2 ∧ (civilOfDays days).2.2 ≤ 31 := by
  obtain ⟨era, e, c, q, t, d, h, rfl⟩ := eraDay_of_days days
  have hd := h.rest
  rw [civilOfDays_eraDay h]
  dsimp only
  constructor
  · split <;> omega
  · omega

/-- A day is found again from its year, month and day. -/
theorem daysOfCivil_civilOfDays (days : Int) :
    daysOfCivil (civilOfDays days).1 (civilOfDays days).2.1 (civilOfDays days).2.2 = days := by
  obtain ⟨era, e, c, q, t, d, h, rfl⟩ := eraDay_of_days days
  rw [civilOfDays_eraDay h]
  have hmonth := h.month
  have hera : (era * 400 + (100 * c + 4 * q + t)).fdiv 400 = era := by
    obtain ⟨-, hc, hq, ht, -, -⟩ := h
    rw [Int.fdiv_eq_ediv_of_nonneg _ (by decide)]
    omega
  have hyear : era * 400 + (100 * c + 4 * q + t) - era * 400 = 100 * c + 4 * q + t := by omega
  have hday := h.dayOfYear
  unfold daysOfCivil
  dsimp only
  generalize (5 * d + 2) / 153 = m at hmonth ⊢
  -- the last two months of a year from March are the first two of the next one
  by_cases hm : m < 10
  · have hback : (m + 3 + 9) % 12 = m := by omega
    rw [if_pos hm, if_pos hm, if_neg (by omega), hera, hyear, hback]
    omega
  · have hback : (m - 9 + 9) % 12 = m := by omega
    rw [if_neg hm, if_neg hm, if_pos (by omega), Int.add_sub_cancel, hera, hyear, hback]
    omega

/-! ## Texts of instants -/

theorem ofDigitChars_padded (width n : Nat) : Nat.ofDigitChars 10 (padded width n) 0 = n := by
  unfold padded
  dsimp only
  rw [Nat.ofDigitChars_append, Nat.ofDigitChars_replicate_zero, Nat.mul_zero,
    Nat.ofDigitChars_ten_toDigits]

/-- A number is found again from its padded digits. -/
theorem padded_injective {width other m n : Nat} (h : padded width m = padded other n) : m = n := by
  rw [← ofDigitChars_padded width m, h, ofDigitChars_padded]

theorem length_padded {width n : Nat} (hwidth : 0 < width) (hn : n < 10 ^ width) :
    (padded width n).length = width := by
  have hlength := (Nat.length_toDigits_le_iff (b := 10) (by decide) hwidth).2 hn
  unfold padded
  dsimp only
  rw [List.length_append, List.length_replicate]
  omega

theorem isDigit_of_mem_padded {width n : Nat} : ∀ c ∈ padded width n, c.isDigit = true := by
  intro c hc
  unfold padded at hc
  rcases List.mem_append.1 hc with hzero | hdigit
  · rw [(List.mem_replicate.1 hzero).2]
    rfl
  · exact Nat.isDigit_of_mem_toDigits (by decide) (by decide) hdigit

/-- The first of padded digits is no sign. -/
theorem padded_ne_cons {width n : Nat} {sign : Char} (hsign : sign.isDigit = false)
    (digits : List Char) : padded width n ≠ sign :: digits := by
  intro h
  rw [isDigit_of_mem_padded sign (h ▸ List.mem_cons_self)] at hsign
  cases hsign

/-- A year is found again from its digits and sign. -/
theorem yearChars_injective {y z : Int} (h : yearChars y = yearChars z) : y = z := by
  unfold yearChars at h
  have hsign (n : Int) : (if n < 0 then '-' else '+').isDigit = false := by split <;> rfl
  by_cases hy : 0 ≤ y ∧ y ≤ 9999 <;> by_cases hz : 0 ≤ z ∧ z ≤ 9999
  · rw [if_pos hy, if_pos hz] at h
    have hnat := padded_injective h
    omega
  · rw [if_pos hy, if_neg hz] at h
    exact (padded_ne_cons (hsign z) _ h).elim
  · rw [if_neg hy, if_pos hz] at h
    exact (padded_ne_cons (hsign y) _ h.symm).elim
  · rw [if_neg hy, if_neg hz] at h
    obtain ⟨hsame, hdigits⟩ := List.cons.inj h
    have hnat := padded_injective hdigits
    by_cases hyneg : y < 0 <;> by_cases hzneg : z < 0
    · omega
    · rw [if_pos hyneg, if_neg hzneg] at hsame
      exact absurd hsame (by decide)
    · rw [if_neg hyneg, if_pos hzneg] at hsame
      exact absurd hsame (by decide)
    · omega

/-- A field of fixed width at the end of a text is found again, and so is what stands before it. -/
theorem field_injective {xs ys : List Char} {width m n : Nat} {mark : Char} (hwidth : 0 < width)
    (hm : m < 10 ^ width) (hn : n < 10 ^ width)
    (h : xs ++ mark :: padded width m = ys ++ mark :: padded width n) : xs = ys ∧ m = n := by
  have hlength : (mark :: padded width m).length = (mark :: padded width n).length := by
    rw [List.length_cons, List.length_cons, length_padded hwidth hm, length_padded hwidth hn]
  obtain ⟨hbefore, hfield⟩ := List.append_inj' h hlength
  exact ⟨hbefore, padded_injective (List.cons.inj hfield).2⟩

/-- Where an instant lies in its day. -/
theorem inDay_bounds (ms : Int) :
    0 ≤ ms - ms.fdiv 86400000 * 86400000 ∧ ms - ms.fdiv 86400000 * 86400000 < 86400000 := by
  rw [Int.fdiv_eq_ediv_of_nonneg _ (by decide)]
  omega

/-- The fields of an instant, from its day and what lies in the day. -/
theorem isoChars_eq (ms : Int) :
    isoChars ms = yearChars (civilOfDays (ms.fdiv 86400000)).1 ++
      '-' :: padded 2 (civilOfDays (ms.fdiv 86400000)).2.1.toNat ++
      '-' :: padded 2 (civilOfDays (ms.fdiv 86400000)).2.2.toNat ++
      'T' :: padded 2 ((ms - ms.fdiv 86400000 * 86400000).toNat / 3600000) ++
      ':' :: padded 2 ((ms - ms.fdiv 86400000 * 86400000).toNat / 60000 % 60) ++
      ':' :: padded 2 ((ms - ms.fdiv 86400000 * 86400000).toNat / 1000 % 60) ++
      '.' :: padded 3 ((ms - ms.fdiv 86400000 * 86400000).toNat % 1000) ++ ['Z'] := rfl

/-- The text of an instant is that of no other. -/
theorem isoText_injective {m n : Int} (h : isoText m = isoText n) : m = n := by
  have hchars : isoChars m = isoChars n := String.ofList_injective h
  have hm := inDay_bounds m
  have hn := inDay_bounds n
  obtain ⟨⟨hm1, hm12⟩, hm1', hm31⟩ := civilOfDays_bounds (m.fdiv 86400000)
  obtain ⟨⟨hn1, hn12⟩, hn1', hn31⟩ := civilOfDays_bounds (n.fdiv 86400000)
  rw [isoChars_eq m, isoChars_eq n] at hchars
  -- the fields are compared from the last one back to the year
  obtain ⟨hchars, -⟩ := List.append_inj' hchars rfl
  obtain ⟨hchars, hmilli⟩ := field_injective (by decide) (by omega) (by omega) hchars
  obtain ⟨hchars, hsecond⟩ := field_injective (by decide) (by omega) (by omega) hchars
  obtain ⟨hchars, hminute⟩ := field_injective (by decide) (by omega) (by omega) hchars
  obtain ⟨hchars, hhour⟩ := field_injective (by decide) (by omega) (by omega) hchars
  obtain ⟨hchars, hdate⟩ := field_injective (by decide) (by omega) (by omega) hchars
  obtain ⟨hchars, hmonth⟩ := field_injective (by decide) (by omega) (by omega) hchars
  have hyear := yearChars_injective hchars
  have hmonth' : (civilOfDays (m.fdiv 86400000)).2.1 = (civilOfDays (n.fdiv 86400000)).2.1 := by
    omega
  have hdate' : (civilOfDays (m.fdiv 86400000)).2.2 = (civilOfDays (n.fdiv 86400000)).2.2 := by
    omega
  have hdays : m.fdiv 86400000 = n.fdiv 86400000 := by
    rw [← daysOfCivil_civilOfDays (m.fdiv _), hyear, hmonth', hdate', daysOfCivil_civilOfDays]
  omega

end PolyQuery.Calendar
