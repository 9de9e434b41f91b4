/-
# Days of the calendar

What day a number of days after 1970-01-01 is, is settled by counting: the day after a date is
the next of its month, else the first of the next month, else the first of the next year
(`Date.next`), and a date falls on a number if one gets from one to the other by going forward and
back day by day (`Date.FallsOn`).  The computation of a date agrees with the count for every whole
number (`Date.fallsOn_ofDays`), and no number has a second date (`Date.FallsOn.eq_toDays`,
`Date.FallsOn.ofDays_eq`).

Both directions of the computation let the year begin in March.  The days of a year are then those
of the months before (`Date.monthStart`), whatever the year, and four hundred years split into
centuries, four-year cycles and years (`Date.Cycles`).
-/

import Mathlib.Tactic.IntervalCases
import Mathlib.Tactic.Tauto
import DeployWatch.Time.Calendar

namespace DeployWatch.Time.Date

/-! ### Counting days -/

/-- A date that exists. -/
structure Exists (d : Date) : Prop where
  month_pos : 1 ≤ d.month
  month_le : d.month ≤ 12
  day_pos : 1 ≤ d.day
  day_le : d.day ≤ daysInMonth d.year d.month

theorem isValid_iff {d : Date} : d.isValid = true ↔ d.Exists := by
  simp only [isValid, Bool.and_eq_true, decide_eq_true_eq]
  constructor
  · rintro ⟨⟨⟨month_pos, month_le⟩, day_pos⟩, day_le⟩
    exact ⟨month_pos, month_le, day_pos, day_le⟩
  · rintro ⟨month_pos, month_le, day_pos, day_le⟩
    exact ⟨⟨⟨month_pos, month_le⟩, day_pos⟩, day_le⟩

/-- The day after. -/
def next (d : Date) : Date :=
  if d.day < daysInMonth d.year d.month then ⟨d.year, d.month, d.day + 1⟩
  else if d.month < 12 then ⟨d.year, d.month + 1, 1⟩
  else ⟨d.year + 1, 1, 1⟩

/-- The day before. -/
def previous (d : Date) : Date :=
  if 1 < d.day then ⟨d.year, d.month, d.day - 1⟩
  else if 1 < d.month then ⟨d.year, d.month - 1, daysInMonth d.year (d.month - 1)⟩
  else ⟨d.year - 1, 12, 31⟩

/-- A date is so many days after 1970-01-01, counted day by day. -/
inductive FallsOn : Date → Int → Prop where
  | epoch : FallsOn ⟨1970, 1, 1⟩ 0
  | forward {d n} (before : FallsOn d n) : FallsOn d.next (n + 1)
  | back {d n} (after : FallsOn d.next n) (there : d.Exists) : FallsOn d (n - 1)

theorem daysInMonth_pos (year : Int) (month : Nat) : 1 ≤ daysInMonth year month := by
  unfold daysInMonth
  split
  · split <;> decide
  · split <;> decide

theorem daysInMonth_le (year : Int) (month : Nat) : daysInMonth year month ≤ 31 := by
  unfold daysInMonth
  split
  · split <;> decide
  · split <;> decide

theorem Exists.day_lt {d : Date} (h : d.Exists) : d.day < 32 :=
  Nat.lt_succ_of_le (h.day_le.trans (daysInMonth_le _ _))

theorem daysInMonth_december (year : Int) : daysInMonth year 12 = 31 := rfl

theorem Exists.next {d : Date} (h : d.Exists) : d.next.Exists := by
  unfold Date.next
  split
  · next inMonth => exact ⟨h.month_pos, h.month_le, by simp, inMonth⟩
  · split
    · next inYear => exact ⟨by simp, inYear, by simp, daysInMonth_pos _ _⟩
    · exact ⟨by simp, by simp, by simp, daysInMonth_pos _ _⟩

theorem Exists.previous {d : Date} (h : d.Exists) : d.previous.Exists := by
  have day_le := h.day_le
  have month_le := h.month_le
  unfold Date.previous
  split
  · next later => exact ⟨h.month_pos, h.month_le, by simp; omega, by simp; omega⟩
  · split
    · next later => exact ⟨by simp; omega, by simp; omega, daysInMonth_pos _ _, le_refl _⟩
    · exact ⟨by simp, by simp, by simp, by simp [daysInMonth_december]⟩

theorem next_previous {d : Date} (h : d.Exists) : d.previous.next = d := by
  obtain ⟨year, month, day⟩ := d
  obtain ⟨month_pos, month_le, day_pos, day_le⟩ := h
  simp only at month_pos month_le day_pos day_le
  unfold previous
  simp only
  split
  · next later =>
    rw [next, if_pos (by simp only; omega)]
    simp only [mk.injEq, true_and]
    omega
  · split
    · next later =>
      rw [next, if_neg (by simp), if_pos (by simp only; omega)]
      simp only [mk.injEq, true_and]
      omega
    · rw [next, if_neg (by simp [daysInMonth_december]), if_neg (by simp)]
      simp only [mk.injEq]
      omega

/-! ### Years that begin in March -/

/-- One day in a leap year, none in others. -/
def leapDays (year : Int) : Nat := if isLeap year then 1 else 0

/-- The year of a date if years begin in March. -/
def marchYear (d : Date) : Int := if d.month ≤ 2 then d.year - 1 else d.year

/-- The months from March to that of a date. -/
def marchMonth (d : Date) : Nat := if d.month ≤ 2 then d.month + 9 else d.month - 3

/-- The days before the March of a year, counted from that of year zero. -/
def daysBefore (year : Int) : Int := 365 * year + year / 4 - year / 100 + year / 400

/-- The days before a month, counted from March. -/
def monthStart (month : Nat) : Nat := (153 * month + 2) / 5

/-- The days before a date, counted from March. -/
def dayOfYear (d : Date) : Nat := monthStart d.marchMonth + (d.day - 1)

theorem toDays_eq {d : Date} (h : d.Exists) :
    d.toDays = daysBefore d.marchYear + d.dayOfYear - epochOffset := by
  have month_pos := h.month_pos
  have day_pos := h.day_pos
  unfold toDays daysBefore marchYear dayOfYear marchMonth monthStart epochOffset daysPerEra
  by_cases early : d.month ≤ 2
  · simp only [if_pos early, if_neg (show ¬ d.month > 2 by omega)]
    omega
  · simp only [if_neg early, if_pos (show d.month > 2 by omega)]
    omega

theorem isLeap_iff {year : Int} :
    isLeap year = true ↔ year % 4 = 0 ∧ (year % 100 = 0 → year % 400 = 0) := by
  simp only [isLeap, Bool.and_eq_true, Bool.or_eq_true, beq_iff_eq, bne_iff_ne]
  tauto

theorem daysBefore_succ (year : Int) :
    daysBefore (year + 1) = daysBefore year + 365 + leapDays (year + 1) := by
  unfold daysBefore leapDays
  split
  · next leap =>
    have := isLeap_iff.mp leap
    omega
  · next common =>
    rw [isLeap_iff] at common
    omega

/-- A month ends where the next begins; February ends with the year. -/
theorem monthStart_add_daysInMonth {d : Date} (h : d.Exists) :
    monthStart d.marchMonth + daysInMonth d.year d.month =
      if d.month = 2 then 365 + leapDays (d.marchYear + 1) else monthStart (d.marchMonth + 1) := by
  obtain ⟨year, month, day⟩ := d
  obtain ⟨month_pos, month_le, -, -⟩ := h
  simp only at month_pos month_le
  simp only [marchMonth, marchYear, daysInMonth, monthStart, leapDays]
  interval_cases month <;> simp
  split <;> rfl

/-- The day after is counted one higher. -/
theorem toDays_next {d : Date} (h : d.Exists) : d.next.toDays = d.toDays + 1 := by
  rw [toDays_eq h, toDays_eq h.next]
  have month_pos := h.month_pos
  have month_le := h.month_le
  have day_pos := h.day_pos
  have day_le := h.day_le
  have ends := monthStart_add_daysInMonth h
  have years := daysBefore_succ d.marchYear
  unfold next
  split
  · have sameYear : marchYear ⟨d.year, d.month, d.day + 1⟩ = d.marchYear := rfl
    have sameMonth : marchMonth ⟨d.year, d.month, d.day + 1⟩ = d.marchMonth := rfl
    simp only [dayOfYear, sameYear, sameMonth]
    omega
  · split
    · by_cases february : d.month = 2
      · have nextYear : marchYear ⟨d.year, d.month + 1, 1⟩ = d.marchYear + 1 := by
          simp [marchYear, february]
        have march : marchMonth ⟨d.year, d.month + 1, 1⟩ = 0 := by simp [marchMonth, february]
        rw [if_pos february] at ends
        simp only [dayOfYear, nextYear, march, years, monthStart] at ends ⊢
        omega
      · have sameYear : marchYear ⟨d.year, d.month + 1, 1⟩ = d.marchYear := by
          simp only [marchYear]
          split <;> split <;> omega
        have nextMonth : marchMonth ⟨d.year, d.month + 1, 1⟩ = d.marchMonth + 1 := by
          simp only [marchMonth]
          split <;> split <;> omega
        rw [if_neg february] at ends
        simp only [dayOfYear, sameYear, nextMonth]
        omega
    · have december : d.month = 12 := by omega
      have sameYear : marchYear ⟨d.year + 1, 1, 1⟩ = d.marchYear := by
        simp [marchYear, december]
      have nextMonth : marchMonth ⟨d.year + 1, 1, 1⟩ = d.marchMonth + 1 := by
        simp [marchMonth, december]
      rw [if_neg (by omega)] at ends
      simp only [dayOfYear, sameYear, nextMonth]
      omega

/-- A date falls on the number that is computed for it, and on no other. -/
theorem FallsOn.eq_toDays {d : Date} {n : Int} (falls : FallsOn d n) :
    d.Exists ∧ n = d.toDays := by
  induction falls with
  | epoch => exact ⟨isValid_iff.mp (by decide), by decide⟩
  | forward _ ih =>
    obtain ⟨h, rfl⟩ := ih
    exact ⟨h.next, (toDays_next h).symm⟩
  | back _ h ih =>
    obtain ⟨-, rfl⟩ := ih
    exact ⟨h, by rw [toDays_next h]; omega⟩

/-- Every number has a date that falls on it. -/
theorem exists_fallsOn (n : Int) : ∃ d : Date, FallsOn d n := by
  induction n using Int.induction_on with
  | zero => exact ⟨⟨1970, 1, 1⟩, .epoch⟩
  | succ n ih =>
    obtain ⟨d, falls⟩ := ih
    exact ⟨d.next, falls.forward⟩
  | pred n ih =>
    obtain ⟨d, falls⟩ := ih
    have h := falls.eq_toDays.1
    rw [← next_previous h] at falls
    exact ⟨d.previous, falls.back h.previous⟩

/-! ### Centuries, cycles and years -/

/-- A day of an era by its century, its four-year cycle, its year and its day of the year.  Only
the last year of a cycle has a day more, and the last cycle of a century has none with it, unless
the era ends with it. -/
structure Cycles (dayOfEra century cycle year day : Nat) : Prop where
  sum : dayOfEra = 36524 * century + 1461 * cycle + 365 * year + day
  century_lt : century < 4
  cycle_lt : cycle < 25
  year_lt : year < 4
  day_le : day ≤ 365
  leap : day = 365 → year = 3 ∧ (cycle = 24 → century = 3)

namespace Cycles

variable {dayOfEra century cycle year day : Nat}

theorem century_eq (h : Cycles dayOfEra century cycle year day) :
    dayOfEra / 36524 - dayOfEra / 146096 = century := by
  obtain ⟨sum, century_lt, cycle_lt, year_lt, day_le, leap⟩ := h
  omega

/-- One leap day for each cycle before, and perhaps one on the last days of a cycle. -/
theorem exists_leapDays (h : Cycles dayOfEra century cycle year day) :
    ∃ extra, dayOfEra / 1460 = 25 * century + cycle + extra ∧ extra ≤ day ∧ day < 365 + extra := by
  obtain ⟨sum, century_lt, cycle_lt, year_lt, day_le, leap⟩ := h
  refine ⟨(24 * century + cycle + 365 * year + day) / 1460, ?_, ?_, ?_⟩
  · have split : dayOfEra
        = 1460 * (25 * century + cycle) + (24 * century + cycle + 365 * year + day) := by omega
    rw [split, Nat.mul_add_div (by decide)]
  · omega
  · omega

/-- The year within the era. -/
theorem yearOfEra_eq (h : Cycles dayOfEra century cycle year day) :
    (dayOfEra - dayOfEra / 1460 + dayOfEra / 36524 - dayOfEra / 146096) / 365
      = 100 * century + 4 * cycle + year := by
  obtain ⟨extra, leapDays, extra_le, day_lt⟩ := h.exists_leapDays
  have centuries := h.century_eq
  have le : dayOfEra / 146096 ≤ dayOfEra / 36524 :=
    Nat.div_le_div_left (by decide) (by decide)
  have sum := h.sum
  have without : dayOfEra - dayOfEra / 1460 + dayOfEra / 36524 - dayOfEra / 146096
      = 365 * (100 * century + 4 * cycle + year) + (day - extra) := by
    generalize dayOfEra / 1460 = a at *
    generalize dayOfEra / 36524 = b at *
    generalize dayOfEra / 146096 = c at *
    omega
  rw [without, Nat.mul_add_div (by decide), Nat.div_eq_of_lt (by omega), Nat.add_zero]

theorem lt_daysPerEra (h : Cycles dayOfEra century cycle year day) : dayOfEra < 146097 := by
  obtain ⟨sum, century_lt, cycle_lt, year_lt, day_le, leap⟩ := h
  omega

end Cycles

/-! ### The computed date -/

theorem dayOfYear_lt_monthStart {d : Date} (h : d.Exists) :
    d.dayOfYear < monthStart (d.marchMonth + 1) := by
  have ends := monthStart_add_daysInMonth h
  have day_pos := h.day_pos
  have day_le := h.day_le
  by_cases february : d.month = 2
  · have last : d.marchMonth = 11 := by simp [marchMonth, february]
    have leap : leapDays (d.marchYear + 1) ≤ 1 := by unfold leapDays; split <;> decide
    rw [if_pos february] at ends
    simp only [dayOfYear, last, monthStart] at ends ⊢
    omega
  · rw [if_neg february] at ends
    simp only [dayOfYear]
    omega

theorem dayOfYear_lt {d : Date} (h : d.Exists) :
    d.dayOfYear < 365 + leapDays (d.marchYear + 1) := by
  have ends := monthStart_add_daysInMonth h
  have day_pos := h.day_pos
  have day_le := h.day_le
  have month_le := h.month_le
  by_cases february : d.month = 2
  · rw [if_pos february] at ends
    simp only [dayOfYear]
    omega
  · have early : d.marchMonth ≤ 10 := by
      simp only [marchMonth]
      split <;> omega
    rw [if_neg february] at ends
    simp only [dayOfYear, monthStart] at ends ⊢
    omega

/-- The month of a day of the year. -/
theorem month_of_dayOfYear {day month : Nat} (begun : monthStart month ≤ day)
    (before : day < monthStart (month + 1)) : (5 * day + 2) / 153 = month := by
  unfold monthStart at begun before
  omega

/-- Days before a March: the eras before, and the days before within the era. -/
theorem daysBefore_eq (year : Int) :
    daysBefore year = daysPerEra * (year / 400) + 365 * (year % 400) + year % 400 / 4
      - year % 400 / 100 := by
  unfold daysBefore daysPerEra
  omega

/-- A day of a year, within the era of the year. -/
theorem cycles_of_dayOfYear {year : Int} {ofEra day : Nat} (within : (ofEra : Int) = year % 400)
    (before : day < 365 + leapDays (year + 1)) :
    Cycles (365 * ofEra + ofEra / 4 - ofEra / 100 + day) (ofEra / 100) (ofEra % 100 / 4)
      (ofEra % 4) day where
  sum := by omega
  century_lt := by omega
  cycle_lt := by omega
  year_lt := by omega
  day_le := by unfold leapDays at before; split at before <;> omega
  leap last := by
    have leap : isLeap (year + 1) := by
      unfold leapDays at before
      split at before
      · assumption
      · omega
    have := isLeap_iff.mp leap
    omega

/-- A date is had back from its year and month counted from March. -/
theorem of_march {d : Date} (h : d.Exists) :
    let month := if d.marchMonth < 10 then d.marchMonth + 3 else d.marchMonth - 9
    (⟨if month ≤ 2 then d.marchYear + 1 else d.marchYear, month, d.day⟩ : Date) = d := by
  obtain ⟨year, month, day⟩ := d
  obtain ⟨month_pos, month_le, -, -⟩ := h
  simp only at month_pos month_le
  by_cases early : month ≤ 2
  · have restored : month + 9 - 9 = month := by omega
    simp only [marchMonth, marchYear, if_pos early, if_neg (show ¬ month + 9 < 10 by omega),
      restored, Int.sub_add_cancel]
  · have restored : month - 3 + 3 = month := by omega
    simp only [marchMonth, marchYear, if_neg early, if_pos (show month - 3 < 10 by omega),
      restored]

/-- The date that is computed for a date's number is the date. -/
theorem ofDays_toDays {d : Date} (h : d.Exists) : ofDays d.toDays = d := by
  obtain ⟨ofEra, within⟩ : ∃ y : Nat, (y : Int) = d.marchYear % 400 :=
    ⟨(d.marchYear % 400).toNat, by omega⟩
  have cycles := cycles_of_dayOfYear within (dayOfYear_lt h)
  have month : (5 * d.dayOfYear + 2) / 153 = d.marchMonth :=
    month_of_dayOfYear (Nat.le_add_right _ _) (dayOfYear_lt_monthStart h)
  have shifted : d.toDays + epochOffset = daysPerEra * (d.marchYear / 400)
      + (365 * ofEra + ofEra / 4 - ofEra / 100 + d.dayOfYear : Nat) := by
    rw [toDays_eq h, daysBefore_eq]
    omega
  have inEra := cycles.lt_daysPerEra
  have year : 100 * (ofEra / 100) + 4 * (ofEra % 100 / 4) + ofEra % 4 = ofEra := by omega
  have yearOfEra := cycles.yearOfEra_eq.trans year
  generalize dayOfEra_eq : 365 * ofEra + ofEra / 4 - ofEra / 100 + d.dayOfYear = dayOfEra at *
  have era : (d.toDays + epochOffset) / daysPerEra = d.marchYear / 400 := by
    rw [shifted]
    unfold daysPerEra
    omega
  have rest : ((d.toDays + epochOffset) % daysPerEra).toNat = dayOfEra := by
    rw [shifted]
    unfold daysPerEra
    omega
  have day : dayOfEra - (365 * ofEra + ofEra / 4 - ofEra / 100) = d.dayOfYear := by omega
  unfold ofDays
  simp only [era, rest, yearOfEra, day, month]
  have marched : (ofEra : Int) + d.marchYear / 400 * 400 = d.marchYear := by omega
  have ofMonth : d.dayOfYear - (153 * d.marchMonth + 2) / 5 + 1 = d.day := by
    have day_pos := h.day_pos
    simp only [dayOfYear, monthStart]
    omega
  rw [marched, ofMonth]
  exact of_march h

/-- The date on which a number falls is the computed one. -/
theorem FallsOn.ofDays_eq {d : Date} {n : Int} (falls : FallsOn d n) : ofDays n = d := by
  obtain ⟨h, rfl⟩ := falls.eq_toDays
  exact ofDays_toDays h

/-- The computed date falls on the number. -/
theorem fallsOn_ofDays (n : Int) : FallsOn (ofDays n) n := by
  obtain ⟨d, falls⟩ := exists_fallsOn n
  rwa [falls.ofDays_eq]

end DeployWatch.Time.Date
