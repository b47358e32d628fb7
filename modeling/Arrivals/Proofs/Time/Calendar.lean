import Arrivals.Time.Calendar

/-! Days turned into dates and back. Main statement: the date of a day is one of the calendar, and it is
the date of no other day. -/

namespace Arrivals

namespace Date

/-- A day of an era falls in one of its years, which are counted from March; a 366th day is a leap day. -/
theorem year_of_era {day year : Int} (hlow : 0 ≤ day) (hhigh : day < 146097)
    (hyear : year = (day - day / 1460 + day / 36524 - day / 146096) / 365) :
    (0 ≤ year ∧ year < 400) ∧
      0 ≤ day - (365 * year + year / 4 - year / 100) ∧
      day - (365 * year + year / 4 - year / 100) ≤ 365 ∧
      (day - (365 * year + year / 4 - year / 100) = 365 →
        year % 4 = 3 ∧ (year % 100 ≠ 99 ∨ year = 399)) := by
  -- Once the century and the place within four years are known, all that is left is linear.
  have hcentury : day / 36524 = 0 ∨ day / 36524 = 1 ∨ day / 36524 = 2 ∨ day / 36524 = 3 ∨
      day / 36524 = 4 := by omega
  have hplace : year = 4 * (day / 1460) - 1 ∨ year = 4 * (day / 1460) ∨ year = 4 * (day / 1460) + 1 ∨
      year = 4 * (day / 1460) + 2 ∨ year = 4 * (day / 1460) + 3 := by omega
  rcases hcentury with hc | hc | hc | hc | hc <;> rw [hc] at hyear <;>
    rcases hplace with hp | hp | hp | hp | hp <;> omega

/-- The days of a year that is counted from March, by month. -/
theorem month_of_year {ofYear month : Int} (hlow : 0 ≤ ofYear) (hhigh : ofYear ≤ 365)
    (hmonth : month = (5 * ofYear + 2) / 153) :
    (0 ≤ month ∧ month < 12) ∧
      1 ≤ ofYear - (153 * month + 2) / 5 + 1 ∧
      ofYear - (153 * month + 2) / 5 + 1 ≤ (153 * (month + 1) + 2) / 5 - (153 * month + 2) / 5 ∧
      (month = 11 → ofYear - (153 * month + 2) / 5 + 1 = ofYear - 336) := by
  omega

/-- The number in the common count of a month that is counted from March. -/
def commonMonth (month : Int) : Int := if month < 10 then month + 3 else month - 9

/-- A day by the year of its era and by the month, both counted from March. -/
structure Marched (n era year month day : Int) : Prop where
  date : ofDays n =
    ⟨if commonMonth month ≤ 2 then year + era * 400 + 1 else year + era * 400,
      (commonMonth month).toNat, day.toNat⟩
  year_lt : 0 ≤ year ∧ year < 400
  month_lt : 0 ≤ month ∧ month < 12
  day_le : 1 ≤ day ∧ day ≤ (153 * (month + 1) + 2) / 5 - (153 * month + 2) / 5
  february : month = 11 → day ≤ 28 ∨ day = 29 ∧ year % 4 = 3 ∧ (year % 100 ≠ 99 ∨ year = 399)
  sum : n = era * 146097 + (year * 365 + year / 4 - year / 100 + ((153 * month + 2) / 5 + day - 1)) - 719468

theorem exists_marched (n : Int) : ∃ era year month day, Marched n era year month day := by
  obtain ⟨era, day, rfl, hlow, hhigh⟩ : ∃ era day : Int,
      n = era * 146097 + day - 719468 ∧ 0 ≤ day ∧ day < 146097 :=
    ⟨(n + 719468) / 146097, (n + 719468) % 146097, by omega, by omega, by omega⟩
  have hera : (era * 146097 + day - 719468 + 719468) / 146097 = era := by omega
  have hday : era * 146097 + day - 719468 + 719468 - era * 146097 = day := by omega
  obtain ⟨year, hyear⟩ : ∃ year, year = (day - day / 1460 + day / 36524 - day / 146096) / 365 := ⟨_, rfl⟩
  obtain ⟨hbounds, hfirst, hlast, hleap⟩ := year_of_era hlow hhigh hyear
  obtain ⟨ofYear, hofYear⟩ : ∃ ofYear, ofYear = day - (365 * year + year / 4 - year / 100) := ⟨_, rfl⟩
  rw [← hofYear] at hfirst hlast hleap
  obtain ⟨month, hmonth⟩ : ∃ month, month = (5 * ofYear + 2) / 153 := ⟨_, rfl⟩
  obtain ⟨hmonths, hdayLow, hdayHigh, hfebruary⟩ := month_of_year hfirst hlast hmonth
  refine ⟨era, year, month, ofYear - (153 * month + 2) / 5 + 1, ?_, hbounds, hmonths,
    ⟨hdayLow, hdayHigh⟩, fun hm => ?_, ?_⟩
  · simp only [ofDays, hera, hday, ← hyear, ← hofYear, ← hmonth, commonMonth]
    rfl
  · rw [hfebruary hm]
    rcases Int.lt_or_eq_of_le hlast with hearly | hend
    · exact .inl (by omega)
    · exact .inr ⟨by omega, hleap hend⟩
  · omega

variable (n : Int)

/-- No two days have one date. -/
theorem toDays_ofDays : (ofDays n).toDays = n := by
  obtain ⟨era, year, month, day, h⟩ := exists_marched n
  have hyear := h.year_lt
  have hmonth := h.month_lt
  have hday := h.day_le
  have hsum := h.sum
  have hera : (year + era * 400) / 400 = era := by omega
  have hcount : (day.toNat : Int) = day := by omega
  rw [h.date, toDays, commonMonth]
  by_cases hspring : month < 10
  · have hlate : ¬ month + 3 ≤ 2 := by omega
    have hlate' : ¬ (month + 3).toNat ≤ 2 := by omega
    have hback : ((month + 3).toNat : Int) - 3 = month := by omega
    simp only [if_pos hspring, if_neg hlate, if_neg hlate', hera, hcount, hback, Int.add_sub_cancel]
    exact hsum.symm
  · have hearly : month - 9 ≤ 2 := by omega
    have hearly' : (month - 9).toNat ≤ 2 := by omega
    have hback : ((month - 9).toNat : Int) + 9 = month := by omega
    simp only [if_neg hspring, if_pos hearly, if_pos hearly', hera, hcount, hback, Int.add_sub_cancel]
    exact hsum.symm

theorem daysInMonth_commonMonth (y : Int) {month : Int} (hlow : 0 ≤ month) (hhigh : month < 11) :
    (daysInMonth y (commonMonth month).toNat : Int) =
      (153 * (month + 1) + 2) / 5 - (153 * month + 2) / 5 := by
  obtain rfl | rfl | rfl | rfl | rfl | rfl | rfl | rfl | rfl | rfl | rfl : month = 0 ∨ month = 1 ∨
      month = 2 ∨ month = 3 ∨ month = 4 ∨ month = 5 ∨ month = 6 ∨ month = 7 ∨ month = 8 ∨ month = 9 ∨
      month = 10 := by omega
  all_goals rfl

theorem isLeapYear_eq_true {y : Int} (h4 : y % 4 = 0) (h100 : y % 100 ≠ 0 ∨ y % 400 = 0) :
    isLeapYear y = true := by
  simpa [isLeapYear, h4] using h100

theorem Marched.day_le_daysInMonth {era year month day : Int} (h : Marched n era year month day) :
    (ofDays n).day ≤ daysInMonth (ofDays n).year (ofDays n).month := by
  have hmonth := h.month_lt
  have hday := h.day_le
  by_cases hlast : month = 11
  · subst hlast
    have hfebruary := h.february rfl
    have hdate : ofDays n = ⟨year + era * 400 + 1, 2, day.toNat⟩ := h.date
    rw [hdate]
    change day.toNat ≤ if isLeapYear (year + era * 400 + 1) then 29 else 28
    rcases hfebruary with hshort | ⟨hlong, hfour, hcentury⟩
    · split <;> omega
    · rw [if_pos (isLeapYear_eq_true (by omega) (by omega))]
      omega
  · have hdays := daysInMonth_commonMonth (ofDays n).year hmonth.1 (by omega)
    rw [h.date] at hdays ⊢
    dsimp only at hdays ⊢
    omega

/-- The date of a day is one of the calendar. -/
theorem valid_ofDays (hlow : leastYear ≤ (ofDays n).year) (hhigh : (ofDays n).year ≤ greatestYear) :
    (ofDays n).valid = true := by
  obtain ⟨era, year, month, day, h⟩ := exists_marched n
  have hdays := h.day_le_daysInMonth
  have hday := h.day_le
  have hmonth := h.month_lt
  have hmonths : 1 ≤ (commonMonth month).toNat ∧ (commonMonth month).toNat ≤ 12 := by
    rw [commonMonth]
    split <;> omega
  have hfirst : 1 ≤ day.toNat := by omega
  rw [h.date] at hlow hhigh hdays ⊢
  simp [valid, hlow, hhigh, hdays, hmonths, hfirst]

theorem daysInMonth_le (y : Int) (m : Nat) : daysInMonth y m ≤ 31 := by
  rw [daysInMonth]
  repeat' split
  all_goals omega

theorem lt_of_valid {d : Date} (h : d.valid = true) : d.month < 100 ∧ d.day < 100 := by
  have hdays := daysInMonth_le d.year d.month
  simp only [valid, Bool.and_eq_true, decide_eq_true_eq] at h
  omega

end Date

end Arrivals
