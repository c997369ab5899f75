import Jobflow.Time.Instant
import Mathlib.Tactic.IntervalCases

/-!
Dates and day numbers. The date that is written for a day number exists in the calendar
and has that number: nothing is lost on the way through eras, centuries and leap years.
-/

namespace Jobflow.Time

/-- The place of a day in an era of 400 years: its century `c`, the group `q` of four years
in the century, the year `t` in the group, and the day `r` of the year. Years begin in
March, so only the last year of a group may be a day longer, and in the last group of a
century only if the century is the last of the era. -/
structure EraPlace (c q t r : Int) : Prop where
  century : 0 ≤ c ∧ c ≤ 3
  group : 0 ≤ q ∧ q ≤ 24
  year : 0 ≤ t ∧ t ≤ 3
  day : 0 ≤ r ∧ (r ≤ 364 ∨ r = 365 ∧ t = 3 ∧ (q ≤ 23 ∨ c = 3))

/-- Every day number has a place in an era. -/
theorem exists_eraPlace (n : Int) :
    ∃ era c q t r : Int, EraPlace c q t r ∧
      n + 719468 = era * 146097 + (36524 * c + 1461 * q + 365 * t + r) := by
  obtain ⟨era, hera⟩ : ∃ era, era = (n + 719468) / 146097 := ⟨_, rfl⟩
  obtain ⟨d, hd⟩ : ∃ d, d = n + 719468 - era * 146097 := ⟨_, rfl⟩
  have hbounds : 0 ≤ d ∧ d ≤ 146096 := by omega
  obtain ⟨c, hc⟩ : ∃ c, c = min (d / 36524) 3 := ⟨_, rfl⟩
  obtain ⟨e, he⟩ : ∃ e, e = d - 36524 * c := ⟨_, rfl⟩
  obtain ⟨q, hq⟩ : ∃ q, q = e / 1461 := ⟨_, rfl⟩
  obtain ⟨s, hs⟩ : ∃ s, s = e - 1461 * q := ⟨_, rfl⟩
  obtain ⟨t, ht⟩ : ∃ t, t = min (s / 365) 3 := ⟨_, rfl⟩
  clear hera
  refine ⟨era, c, q, t, s - 365 * t, ⟨?_, ?_, ?_, ?_⟩, ?_⟩ <;> omega

namespace EraPlace

variable {c q t r : Int}

/-- The year of the era, as it is found by leaving out the leap days before. -/
theorem year_eq (h : EraPlace c q t r) {d : Int} (hd : d = 36524 * c + 1461 * q + 365 * t + r) :
    (d - d / 1460 + d / 36524 - d / 146096) / 365 = 100 * c + 4 * q + t := by
  obtain ⟨hc, hq, ht, hr⟩ := h
  have hfours : d / 1460 = 25 * c + q + (24 * c + q + 365 * t + r) / 1460 := by omega
  have hcenturies : d / 36524 - d / 146096 = c := by
    by_cases hlast : d = 146096
    · omega
    · have hcentury : d / 36524 = c := by omega
      omega
  omega

/-- The days of the era before the year. -/
theorem daysBefore_eq (h : EraPlace c q t r) :
    365 * (100 * c + 4 * q + t) + (100 * c + 4 * q + t) / 4 - (100 * c + 4 * q + t) / 100 =
      36524 * c + 1461 * q + 365 * t := by
  obtain ⟨hc, hq, ht, -⟩ := h
  have hfours : (100 * c + 4 * q + t) / 4 = 25 * c + q := by omega
  have hcenturies : (100 * c + 4 * q + t) / 100 = c := by omega
  omega

/-- A year of 366 days ends with the leap day of the year that is shown for it. -/
theorem isLeapYear (h : EraPlace c q t r) (hr : r = 365) (era : Int) :
    isLeapYear (100 * c + 4 * q + t + era * 400 + 1) := by
  obtain ⟨hc, hq, ht, hday⟩ := h
  have hlast : t = 3 ∧ (q ≤ 23 ∨ c = 3) := by omega
  simp only [Time.isLeapYear, Bool.or_eq_true, Bool.and_eq_true, beq_iff_eq, bne_iff_ne, ne_eq]
  omega

end EraPlace

/-- The month that a date shows, for one counted from March. -/
def shownMonth (m : Int) : Int := if m < 10 then m + 3 else m - 9

/-- The date of a day of a year that begins in March. -/
def dateOf (year r : Int) : Date :=
  let m := (5 * r + 2) / 153
  ⟨if shownMonth m ≤ 2 then year + 1 else year, (shownMonth m).toNat,
    (r - (153 * m + 2) / 5 + 1).toNat⟩

variable {c q t r era n : Int}

theorem ofDayNumber_eq (h : EraPlace c q t r)
    (hn : n + 719468 = era * 146097 + (36524 * c + 1461 * q + 365 * t + r)) :
    Date.ofDayNumber n = dateOf (100 * c + 4 * q + t + era * 400) r := by
  have hyear := h.year_eq rfl
  have hbefore := h.daysBefore_eq
  obtain ⟨d, hd⟩ : ∃ d, d = 36524 * c + 1461 * q + 365 * t + r := ⟨_, rfl⟩
  have hera : (n + 719468).fdiv 146097 = era := by
    obtain ⟨hc, hq, ht, hr⟩ := h
    rw [Int.fdiv_eq_ediv_of_nonneg _ (by decide)]
    omega
  have hday : n + 719468 - era * 146097 = d := by omega
  have hrest : d - (36524 * c + 1461 * q + 365 * t) = r := by omega
  rw [← hd] at hyear
  unfold Date.ofDayNumber
  dsimp only
  rw [hera, hday, hyear, hbefore, hrest]
  rfl

theorem dayNumber_dateOf {y : Int} (hy : 0 ≤ y ∧ y ≤ 399) (hr : 0 ≤ r ∧ r ≤ 365) :
    (dateOf (y + era * 400) r).dayNumber =
      era * 146097 + (y * 365 + y / 4 - y / 100 + r) - 719468 := by
  obtain ⟨m, hm⟩ : ∃ m, m = (5 * r + 2) / 153 := ⟨_, rfl⟩
  have hera : (y + era * 400).fdiv 400 = era := by
    rw [Int.fdiv_eq_ediv_of_nonneg _ (by decide)]
    omega
  have hyear : y + era * 400 - era * 400 = y := by omega
  have hday : ((r - (153 * m + 2) / 5 + 1).toNat : Int) = r - (153 * m + 2) / 5 + 1 :=
    Int.toNat_of_nonneg (by omega)
  have hdays : (153 * m + 2) / 5 + (r - (153 * m + 2) / 5 + 1) - 1 = r := by omega
  simp only [dateOf, Date.dayNumber, ← hm]
  rw [hday]
  -- January and February belong to the year that began in March before them
  unfold shownMonth
  by_cases hlate : m < 10
  · have hshown : ¬ m + 3 ≤ 2 := by omega
    have hmonth : ¬ (m + 3).toNat ≤ 2 := by omega
    have hcount : ((m + 3).toNat : Int) - 3 = m := by omega
    rw [if_pos hlate, if_neg hshown, if_neg hmonth, if_neg hmonth, hera, hyear, hcount, hdays]
  · have hshown : m - 9 ≤ 2 := by omega
    have hmonth : (m - 9).toNat ≤ 2 := by omega
    have hcount : ((m - 9).toNat : Int) + 9 = m := by omega
    have hbefore : y + era * 400 + 1 - 1 = y + era * 400 := by omega
    rw [if_neg hlate, if_pos hshown, if_pos hmonth, if_pos hmonth, hbefore, hera, hyear, hcount,
      hdays]

/-- The date that is written for a day number has that number. -/
theorem dayNumber_ofDayNumber (n : Int) : (Date.ofDayNumber n).dayNumber = n := by
  obtain ⟨era, c, q, t, r, h, hn⟩ := exists_eraPlace n
  have hbefore := h.daysBefore_eq
  rw [ofDayNumber_eq h hn]
  obtain ⟨hc, hq, ht, hr⟩ := h
  rw [dayNumber_dateOf (by omega) (by omega)]
  omega

theorem isValid_dateOf {year : Int} (hr : 0 ≤ r ∧ r ≤ 365)
    (hleap : r = 365 → isLeapYear (year + 1)) : (dateOf year r).isValid := by
  obtain ⟨m, hm⟩ : ∃ m, m = (5 * r + 2) / 153 := ⟨_, rfl⟩
  have hlow : 0 ≤ m := by omega
  have hhigh : m ≤ 11 := by omega
  simp only [dateOf, ← hm, Date.isValid, Bool.and_eq_true, decide_eq_true_eq]
  by_cases hlast : r = 365
  · obtain rfl : m = 11 := by omega
    subst hlast
    simp [shownMonth, daysInMonth, hleap rfl]
  · have hfebruary : 28 ≤ if isLeapYear (year + 1) then 29 else 28 := by split <;> omega
    interval_cases m <;> simp [shownMonth, daysInMonth] <;> omega

/-- The date that is written for a day number exists in the calendar. -/
theorem isValid_ofDayNumber (n : Int) : (Date.ofDayNumber n).isValid := by
  obtain ⟨era, c, q, t, r, h, hn⟩ := exists_eraPlace n
  have hr := h.day
  rw [ofDayNumber_eq h hn]
  exact isValid_dateOf (by omega) fun hlast => h.isLeapYear hlast era

/-- The months of a date are twelve and its days are at most 31. -/
theorem bounds_of_isValid {date : Date} (h : date.isValid) :
    (1 ≤ date.month ∧ date.month ≤ 12) ∧ 1 ≤ date.day ∧ date.day ≤ 31 := by
  simp only [Date.isValid, Bool.and_eq_true, decide_eq_true_eq] at h
  have hlength : daysInMonth date.year date.month ≤ 31 := by
    unfold daysInMonth
    split
    · split <;> omega
    · split <;> omega
  omega

/-- January and February are shown in the year after the one they end. -/
theorem year_dateOf (year : Int) {r : Int} (hr : 0 ≤ r ∧ r ≤ 365) :
    (dateOf year r).year = if r < 306 then year else year + 1 := by
  have hshown : shownMonth ((5 * r + 2) / 153) ≤ 2 ↔ ¬ r < 306 := by
    unfold shownMonth
    split <;> omega
  unfold dateOf
  dsimp only
  split <;> split <;> omega

/-- A year has at least 365 days. -/
theorem year_ofDayNumber_bounds (bound : Int) {n : Int} (hn : -365 * bound ≤ n ∧ n ≤ 365 * bound) :
    -bound ≤ (Date.ofDayNumber n).year - 1970 ∧ (Date.ofDayNumber n).year - 1970 ≤ bound := by
  obtain ⟨era, c, q, t, r, h, hplace⟩ := exists_eraPlace n
  rw [ofDayNumber_eq h hplace]
  obtain ⟨hc, hq, ht, hr⟩ := h
  have hshown := year_dateOf (100 * c + 4 * q + t + era * 400) (r := r) (by omega)
  omega

/-- A year has at most 366 days. -/
theorem bounds_of_year_ofDayNumber (bound : Int) {n : Int}
    (hyear : -bound ≤ (Date.ofDayNumber n).year - 1970 ∧ (Date.ofDayNumber n).year - 1970 ≤ bound) :
    -366 * (bound + 1) ≤ n ∧ n ≤ 366 * (bound + 1) := by
  obtain ⟨era, c, q, t, r, h, hplace⟩ := exists_eraPlace n
  rw [ofDayNumber_eq h hplace] at hyear
  obtain ⟨hc, hq, ht, hr⟩ := h
  have hshown := year_dateOf (100 * c + 4 * q + t + era * 400) (r := r) (by omega)
  omega

end Jobflow.Time
