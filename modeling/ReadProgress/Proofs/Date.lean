import ReadProgress.Date

/-!
This module contains the proof that days are counted back and forth without loss, and that the dates
which are found for days exist.
-/

namespace ReadProgress

namespace Date

/--
Where a day stands in 400 years: in which century, in which four years of it, in which of those, and
on which day of the year. All are counted from zero, and years begin in March.
-/
structure Parts (inEra century quad year day : Int) : Prop where
  eq : inEra = 36524 * century + 1461 * quad + 365 * year + day
  century_le : 0 ≤ century ∧ century ≤ 3
  quad_le : 0 ≤ quad ∧ quad ≤ 24
  year_le : 0 ≤ year ∧ year ≤ 3
  day_le : 0 ≤ day ∧ day ≤ 365
  /-- Only leap years have a last day on top. -/
  leap : day = 365 → year = 3 ∧ (quad = 24 → century = 3)

theorem exists_parts (inEra : Int) (hlow : 0 ≤ inEra) (hhigh : inEra < 146097) :
    ∃ century quad year day, Parts inEra century quad year day := by
  let century := min (inEra / 36524) 3
  let inCentury := inEra - 36524 * century
  let year := min (inCentury % 1461 / 365) 3
  refine ⟨century, inCentury / 1461, year, inCentury % 1461 - 365 * year, ?_⟩
  constructor <;> omega

namespace Parts

variable {inEra century quad year day : Int}

theorem ofEra_eq (h : Parts inEra century quad year day) :
    (inEra - inEra / 1460 + inEra / 36524 - inEra / 146096) / 365 =
      100 * century + 4 * quad + year := by
  obtain ⟨heq, hcentury, hquad, hyear, hday, hleap⟩ := h
  have hlast : inEra / 146096 = if inEra = 146096 then 1 else 0 := by
    split <;> omega
  have hcenturies : inEra / 36524 = if inEra = 146096 then century + 1 else century := by
    split <;> omega
  have hquads : inEra / 1460 =
      25 * century + quad + (24 * century + quad + 365 * year + day) / 1460 := by
    omega
  omega

theorem inYear_eq (h : Parts inEra century quad year day) {ofEra : Int}
    (hofEra : ofEra = 100 * century + 4 * quad + year) :
    inEra - (365 * ofEra + ofEra / 4 - ofEra / 100) = day := by
  obtain ⟨heq, hcentury, hquad, hyear, hday, hleap⟩ := h
  omega

end Parts

theorem exists_parts_ofDay (day : Int) : ∃ era century quad year inYear : Int,
    Parts ((day + 719468) % 146097) century quad year inYear ∧
    era = (day + 719468) / 146097 ∧
    ofDay day = (
      let month := (5 * inYear + 2) / 153
      let years := era * 400 + (100 * century + 4 * quad + year)
      {
        year := if month < 10 then years else years + 1
        month := (if month < 10 then month + 3 else month - 9).toNat
        day := (inYear - (153 * month + 2) / 5 + 1).toNat
      }) := by
  obtain ⟨century, quad, year, inYear, h⟩ :=
    exists_parts ((day + 719468) % 146097) (by omega) (by omega)
  refine ⟨_, century, quad, year, inYear, h, rfl, ?_⟩
  unfold ofDay
  simp only [h.ofEra_eq, h.inYear_eq rfl]

theorem toDay_ofDay (day : Int) : toDay (ofDay day) = day := by
  obtain ⟨era, century, quad, year, inYear, h, hera, hdate⟩ := exists_parts_ofDay day
  obtain ⟨heq, hcentury, hquad, hyear, hday, -⟩ := h
  rw [hdate]
  unfold toDay
  have hmonth : 0 ≤ (5 * inYear + 2) / 153 ∧ (5 * inYear + 2) / 153 ≤ 11 := by omega
  have hdivYear : (era * 400 + (100 * century + 4 * quad + year)) / 400 = era := by omega
  have hmodYear : (era * 400 + (100 * century + 4 * quad + year)) % 400 =
      100 * century + 4 * quad + year := by omega
  have hleapYears : (100 * century + 4 * quad + year) / 4 = 25 * century + quad := by omega
  have hcenturies : (100 * century + 4 * quad + year) / 100 = century := by omega
  generalize hm : (5 * inYear + 2) / 153 = month at hmonth
  have hinMonth : ((inYear - (153 * month + 2) / 5 + 1).toNat : Int) =
      inYear - (153 * month + 2) / 5 + 1 := by omega
  by_cases hlate : month < 10
  . have hnat : ((month + 3).toNat : Int) = month + 3 := by omega
    have hnot : ¬ (month + 3).toNat ≤ 2 := by omega
    simp only [hlate, if_true, hnot, if_false, hnat, hinMonth, hdivYear, hmodYear, hleapYears,
      hcenturies, Int.add_sub_cancel]
    omega
  . have hnat : ((month - 9).toNat : Int) = month - 9 := by omega
    have hle : (month - 9).toNat ≤ 2 := by omega
    simp only [hlate, if_false, hle, if_true, hnat, hinMonth, Int.add_sub_cancel,
      Int.sub_add_cancel, hdivYear, hmodYear, hleapYears, hcenturies]
    omega

theorem isLeapYear_of_last {era century quad : Int} (hquad : 0 ≤ quad ∧ quad ≤ 24)
    (hlast : quad = 24 → century = 3) :
    isLeapYear (era * 400 + (100 * century + 4 * quad + 3) + 1) = true := by
  simp only [isLeapYear, Bool.and_eq_true, Bool.or_eq_true, beq_iff_eq, bne_iff_ne, ne_eq]
  omega

theorem isValid_ofDay (day : Int) : (ofDay day).isValid = true := by
  obtain ⟨era, century, quad, year, inYear, h, hera, hdate⟩ := exists_parts_ofDay day
  obtain ⟨heq, hcentury, hquad, hyear, hday, hleap⟩ := h
  obtain ⟨month, hm⟩ : ∃ month : Nat, (5 * inYear + 2) / 153 = month :=
    ⟨((5 * inYear + 2) / 153).toNat, by omega⟩
  have hmonth : month ≤ 11 := by omega
  rw [hdate]
  simp only [isValid, Bool.and_eq_true, decide_eq_true_eq, hm]
  refine ⟨by omega, ?_⟩
  -- Years begin in March, so February is the last of the twelve months.
  match month, hmonth with
  | 0, _ | 2, _ | 4, _ | 5, _ | 7, _ | 9, _ | 10, _ =>
    simp [daysInMonth]
    omega
  | 1, _ | 3, _ | 6, _ | 8, _ =>
    simp [daysInMonth]
    omega
  | 11, _ =>
    simp [daysInMonth]
    split
    . omega
    . next hnot =>
      have : inYear ≠ 365 := by
        intro hlast
        obtain ⟨rfl, hquads⟩ := hleap hlast
        exact hnot (isLeapYear_of_last hquad hquads)
      omega

theorem month_of_isValid {date : Date} (h : date.isValid = true) :
    1 ≤ date.month ∧ date.month ≤ 12 ∧ 1 ≤ date.day ∧ date.day ≤ 31 := by
  simp only [isValid, Bool.and_eq_true, decide_eq_true_eq] at h
  unfold daysInMonth at h
  split at h
  all_goals first | omega | skip
  split at h <;> omega

theorem year_ofDay {day : Int} (hlow : -96465292 ≤ day) (hhigh : day ≤ 95026236) :
    -262500 ≤ (ofDay day).year ∧ (ofDay day).year ≤ 262500 := by
  obtain ⟨era, century, quad, year, inYear, h, hera, hdate⟩ := exists_parts_ofDay day
  obtain ⟨heq, hcentury, hquad, hyear, hday, hleap⟩ := h
  rw [hdate]
  dsimp only
  split <;> omega

end Date

end ReadProgress
