import ClaimQueue.Time.Instant

/-! Days in their order, and the time between two instants. Away from any second 60, an instant is a
number of nanoseconds: later instants have larger ones, and the time between is the difference. -/

namespace ClaimQueue

namespace Date

/-! Years begin in March here, as they do in the numbering of the days. -/

def shiftedYear (d : Date) : Int := if d.month ≤ 2 then d.year - 1 else d.year

def shiftedMonth (d : Date) : Nat := (d.month + 9) % 12

/-- The days before the year, from the first day of year 0. -/
def daysBefore (year : Int) : Int :=
  year / 400 * 146097 + (year % 400 * 365 + year % 400 / 4 - year % 400 / 100)

theorem number_eq (d : Date) : d.number =
    daysBefore d.shiftedYear + ((153 * d.shiftedMonth + 2) / 5 + d.day - 1 : Nat) - 719468 := by
  simp only [number, daysBefore, shiftedYear, shiftedMonth]
  omega

theorem daysBefore_succ (year : Int) : daysBefore (year + 1) =
    daysBefore year + 365 + if isLeapYear (year + 1) then 1 else 0 := by
  simp only [daysBefore, isLeapYear, Bool.and_eq_true, Bool.or_eq_true, beq_iff_eq, bne_iff_ne]
  split <;> omega

theorem daysBefore_mono {x y : Int} (before : x ≤ y) : daysBefore x ≤ daysBefore y := by
  simp only [daysBefore]
  omega

/-- The months in the order of the shifted year. -/
theorem shifted (d : Date) : d.shiftedYear * 12 + d.shiftedMonth = d.year * 12 + d.month - 3 ∧
    d.shiftedMonth < 12 := by
  have range := d.month_range
  simp only [shiftedYear, shiftedMonth]
  split <;> omega

/-- A month ends before the next begins, and the last one before the next year. -/
theorem month_fits (d : Date) : (153 * d.shiftedMonth + 2) / 5 + monthLength d.year d.month ≤
    if d.shiftedMonth < 11 then (153 * (d.shiftedMonth + 1) + 2) / 5
    else 365 + if isLeapYear (d.shiftedYear + 1) then 1 else 0 := by
  obtain ⟨year, month, day, -, range, -⟩ := d
  simp only [shiftedYear, shiftedMonth]
  have cases : month = 1 ∨ month = 2 ∨ month = 3 ∨ month = 4 ∨ month = 5 ∨ month = 6 ∨ month = 7 ∨
      month = 8 ∨ month = 9 ∨ month = 10 ∨ month = 11 ∨ month = 12 := by omega
  rcases cases with rfl | rfl | rfl | rfl | rfl | rfl | rfl | rfl | rfl | rfl | rfl | rfl <;>
    simp [monthLength]
  split <;> simp

theorem number_lt_of_months {a b : Date} (months : a.year * 12 + a.month < b.year * 12 + b.month) :
    a.number < b.number := by
  have shiftA := a.shifted
  have shiftB := b.shifted
  have dayA := a.day_range
  have dayB := b.day_range
  have fits := a.month_fits
  rw [number_eq, number_eq]
  by_cases same : a.shiftedYear = b.shiftedYear
  · rw [same]
    rw [if_pos (by omega)] at fits
    omega
  · have later : a.shiftedYear + 1 ≤ b.shiftedYear := by omega
    have years := daysBefore_mono later
    rw [daysBefore_succ] at years
    split at fits
    · split at years <;> omega
    · split at fits <;> simp_all <;> omega

theorem number_lt_of_days {a b : Date} (year : a.year = b.year) (month : a.month = b.month)
    (days : a.day < b.day) : a.number < b.number := by
  have day := a.day_range
  simp only [number, year, month]
  omega

/-- Later days have larger numbers. -/
theorem order_eq (a b : Date) : a.order b = compare a.number b.number := by
  have monthsA := a.month_range
  have monthsB := b.month_range
  have before {a b : Date} (h : a.number < b.number) : compare a.number b.number = .lt :=
    Int.compare_eq_lt.mpr h
  have after {a b : Date} (h : b.number < a.number) : compare a.number b.number = .gt :=
    Int.compare_eq_gt.mpr h
  unfold order
  rcases Int.lt_trichotomy a.year b.year with lt | same | gt
  · rw [Int.compare_eq_lt.mpr lt, before (number_lt_of_months (by omega))]
    rfl
  · rw [Int.compare_eq_eq.mpr same, Ordering.eq_then]
    rcases Nat.lt_trichotomy a.month b.month with lt | same' | gt
    · rw [Nat.compare_eq_lt.mpr lt, before (number_lt_of_months (by omega))]
      rfl
    · rw [Nat.compare_eq_eq.mpr same', Ordering.eq_then]
      rcases Nat.lt_trichotomy a.day b.day with lt | same'' | gt
      · rw [Nat.compare_eq_lt.mpr lt, before (number_lt_of_days same same' lt)]
      · have equal : a.number = b.number := by simp only [number, same, same', same'']
        rw [Nat.compare_eq_eq.mpr same'', Int.compare_eq_eq.mpr equal]
      · rw [Nat.compare_eq_gt.mpr gt, after (number_lt_of_days same.symm same'.symm gt)]
    · rw [Nat.compare_eq_gt.mpr gt, after (number_lt_of_months (by omega))]
      rfl
  · rw [Int.compare_eq_gt.mpr gt, after (number_lt_of_months (by omega))]
    rfl

theorem number_bounds (d : Date) : -100000000 ≤ d.number ∧ d.number ≤ 100000000 := by
  have years := d.year_range
  have months := d.month_range
  have days := d.day_range
  have short : monthLength d.year d.month ≤ 31 := by
    unfold monthLength
    split
    · split <;> omega
    all_goals omega
  simp only [number]
  split <;> omega

end Date

namespace Instant

/-- A whole number of milliseconds after 1970 began, or before. A second 60 is none of them. -/
structure InMillis (t : Instant) : Prop where
  plain : t.nano < 1000000000
  whole : t.nano % 1000000 = 0

/-- Nanoseconds after 1970 began, for an instant in no second 60. -/
def nanos (t : Instant) : Int := (t.date.number * 86400 + t.second) * 1000000000 + t.nano

theorem since_eq {a b : Instant} (ha : a.nano < 1000000000) (hb : b.nano < 1000000000) :
    a.since b = a.nanos - b.nanos := by
  simp only [since, nanos, if_neg (show ¬ (b.second < a.second ∧ 1000000000 ≤ b.nano) by omega),
    if_neg (show ¬ (a.second < b.second ∧ 1000000000 ≤ a.nano) by omega)]
  omega

theorem order_eq {a b : Instant} (ha : a.nano < 1000000000) (hb : b.nano < 1000000000) :
    a.order b = compare a.nanos b.nanos := by
  have secondsA := a.second_range
  have secondsB := b.second_range
  have before (h : a.nanos < b.nanos) : compare a.nanos b.nanos = .lt := Int.compare_eq_lt.mpr h
  have after (h : b.nanos < a.nanos) : compare a.nanos b.nanos = .gt := Int.compare_eq_gt.mpr h
  unfold order
  rw [Date.order_eq]
  rcases Int.lt_trichotomy a.date.number b.date.number with lt | same | gt
  · rw [Int.compare_eq_lt.mpr lt, before (by simp only [nanos]; omega)]
    rfl
  · rw [Int.compare_eq_eq.mpr same, Ordering.eq_then]
    rcases Nat.lt_trichotomy a.second b.second with lt | same' | gt
    · rw [Nat.compare_eq_lt.mpr lt, before (by simp only [nanos]; omega)]
      rfl
    · rw [Nat.compare_eq_eq.mpr same', Ordering.eq_then]
      rcases Nat.lt_trichotomy a.nano b.nano with lt | same'' | gt
      · rw [Nat.compare_eq_lt.mpr lt, before (by simp only [nanos]; omega)]
      · have equal : a.nanos = b.nanos := by simp only [nanos, same, same', same'']
        rw [Nat.compare_eq_eq.mpr same'', Int.compare_eq_eq.mpr equal]
      · rw [Nat.compare_eq_gt.mpr gt, after (by simp only [nanos]; omega)]
    · rw [Nat.compare_eq_gt.mpr gt, after (by simp only [nanos]; omega)]
      rfl
  · rw [Int.compare_eq_gt.mpr gt, after (by simp only [nanos]; omega)]
    rfl

/-- The calendar is much shorter than the longest age. -/
theorem since_lt_longestAge (a b : Instant) : a.since b < longestAge := by
  have daysA := a.date.number_bounds
  have daysB := b.date.number_bounds
  have secondsA := a.second_range
  have secondsB := b.second_range
  have nanosA := a.nano_range
  have nanosB := b.nano_range
  simp only [since, longestAge]
  split
  · omega
  · split <;> omega

theorem InMillis.since {a b : Instant} (ha : a.InMillis) (hb : b.InMillis) :
    ∃ millis : Int, a.since b = millis * 1000000 := by
  have wholeA := ha.whole
  have wholeB := hb.whole
  refine ⟨(a.nanos - b.nanos) / 1000000, ?_⟩
  rw [since_eq ha.plain hb.plain]
  simp only [nanos]
  omega

instance : Std.TransCmp order :=
  inferInstanceAs (Std.TransCmp (compareLex
    (compareLex (compareOn fun t : Instant => t.date.year)
      (compareLex (compareOn fun t => t.date.month) (compareOn fun t => t.date.day)))
    (compareLex (compareOn Instant.second) (compareOn Instant.nano))))

end Instant

end ClaimQueue
