import Mathlib.Order.Basic
import Mathlib.Tactic.IntervalCases

/-!
# The proleptic Gregorian calendar

Dates are numbered by the days before them, counted from the first of January of the year
zero: the lengths of the years before, of the months before, and the days of the month. The
numbers come in the order of the dates. A year that is counted from March instead has its
leap day at its end, and the days before it in closed form.
-/

set_option autoImplicit false

namespace Calendar

/-- Every fourth year, but of the centuries only every fourth. -/
def IsLeap (year : Nat) : Prop := year % 4 = 0 ∧ (year % 100 ≠ 0 ∨ year % 400 = 0)

instance (year : Nat) : Decidable (IsLeap year) :=
  inferInstanceAs (Decidable (year % 4 = 0 ∧ (year % 100 ≠ 0 ∨ year % 400 = 0)))

def yearLength (year : Nat) : Nat := if IsLeap year then 366 else 365

def monthLength (year month : Nat) : Nat :=
  match month with
  | 2 => if IsLeap year then 29 else 28
  | 4 | 6 | 9 | 11 => 30
  | _ => 31

def daysBeforeYear : Nat → Nat
  | 0 => 0
  | year + 1 => daysBeforeYear year + yearLength year

/-- The days in the first `n` months. -/
def daysInMonths (year : Nat) : Nat → Nat
  | 0 => 0
  | n + 1 => daysInMonths year n + monthLength year (n + 1)

structure Date where
  year : Nat
  month : Nat
  day : Nat
  deriving DecidableEq

namespace Date

structure Valid (d : Date) : Prop where
  month_pos : 1 ≤ d.month
  month_le : d.month ≤ 12
  day_pos : 1 ≤ d.day
  day_le : d.day ≤ monthLength d.year d.month

def dayNumber (d : Date) : Nat :=
  daysBeforeYear d.year + (daysInMonths d.year (d.month - 1) + (d.day - 1))

def Before (d d' : Date) : Prop :=
  d.year < d'.year ∨
    d.year = d'.year ∧ (d.month < d'.month ∨ d.month = d'.month ∧ d.day < d'.day)

end Date

/-! ### The order of dates -/

section Order
variable {year year' n n' : Nat} {d d' : Date}

theorem daysBeforeYear_le (h : year ≤ year') : daysBeforeYear year ≤ daysBeforeYear year' := by
  induction h with
  | refl => exact Nat.le_refl _
  | step _ ih => exact Nat.le_trans ih (Nat.le_add_right ..)

theorem daysInMonths_le (h : n ≤ n') : daysInMonths year n ≤ daysInMonths year n' := by
  induction h with
  | refl => exact Nat.le_refl _
  | step _ ih => exact Nat.le_trans ih (Nat.le_add_right ..)

theorem daysInMonths_twelve (year : Nat) : daysInMonths year 12 = yearLength year := by
  unfold yearLength
  simp only [daysInMonths, monthLength]
  split <;> rfl

theorem Date.Valid.inMonth (h : d.Valid) :
    daysInMonths d.year (d.month - 1) + (d.day - 1) < daysInMonths d.year d.month := by
  obtain ⟨m, hm⟩ : ∃ m, d.month = m + 1 := ⟨d.month - 1, (Nat.sub_add_cancel h.month_pos).symm⟩
  have hday := h.day_le
  have hpos := h.day_pos
  rw [hm] at hday ⊢
  rw [Nat.add_sub_cancel, daysInMonths]
  omega

theorem Date.Valid.inYear (h : d.Valid) :
    daysInMonths d.year (d.month - 1) + (d.day - 1) < yearLength d.year := by
  rw [← daysInMonths_twelve]
  exact Nat.lt_of_lt_of_le h.inMonth (daysInMonths_le h.month_le)

theorem Date.dayNumber_lt (h : d.Valid) (hbefore : d.Before d') :
    d.dayNumber < d'.dayNumber := by
  unfold dayNumber
  rcases hbefore with hyear | ⟨hyear, hmonth | ⟨hmonth, hday⟩⟩
  · have hle : daysBeforeYear (d.year + 1) ≤ daysBeforeYear d'.year := daysBeforeYear_le hyear
    rw [daysBeforeYear] at hle
    have hin := h.inYear
    omega
  · have hin := h.inMonth
    have hle : daysInMonths d.year d.month ≤ daysInMonths d.year (d'.month - 1) :=
      daysInMonths_le (by omega)
    rw [hyear] at hin hle ⊢
    omega
  · have hpos := h.day_pos
    rw [hyear, hmonth]
    omega

theorem Date.before_or (d d' : Date) : d.Before d' ∨ d = d' ∨ d'.Before d := by
  obtain ⟨y, m, day⟩ := d
  obtain ⟨y', m', day'⟩ := d'
  simp only [Before, Date.mk.injEq]
  omega

/-- Dates are as their numbers: none has two, and the order is the same. -/
theorem Date.before_iff (h : d.Valid) (h' : d'.Valid) :
    d.Before d' ↔ d.dayNumber < d'.dayNumber := by
  constructor
  · exact dayNumber_lt h
  · intro hlt
    rcases before_or d d' with hbefore | heq | hafter
    · exact hbefore
    · rw [heq] at hlt
      exact absurd hlt (Nat.lt_irrefl _)
    · exact absurd hlt (Nat.lt_asymm (dayNumber_lt h' hafter))

end Order

/-! ### The time of the day -/

structure DateTime where
  date : Date
  hour : Nat
  minute : Nat
  second : Nat

namespace DateTime

structure Valid (t : DateTime) : Prop where
  date : t.date.Valid
  hour : t.hour < 24
  minute : t.minute < 60
  second : t.second < 60

def secondOfDay (t : DateTime) : Nat := t.hour * 3600 + t.minute * 60 + t.second

/-- The seconds from the first of January of the year zero on. -/
def secondNumber (t : DateTime) : Nat := t.date.dayNumber * 86400 + t.secondOfDay

def Before (t t' : DateTime) : Prop :=
  t.date.Before t'.date ∨ t.date = t'.date ∧
    (t.hour < t'.hour ∨ t.hour = t'.hour ∧
      (t.minute < t'.minute ∨ t.minute = t'.minute ∧ t.second < t'.second))

/-- Points in time are in the order of their numbers. -/
theorem before_of_lt {t t' : DateTime} (h : t.Valid) (h' : t'.Valid)
    (hlt : t.secondNumber < t'.secondNumber) : t.Before t' := by
  have hday := h.hour
  have hmin := h.minute
  have hsec := h.second
  have hday' := h'.hour
  have hmin' := h'.minute
  have hsec' := h'.second
  unfold secondNumber secondOfDay at hlt
  rcases Date.before_or t.date t'.date with hbefore | heq | hafter
  · exact Or.inl hbefore
  · rw [heq] at hlt
    exact Or.inr ⟨heq, by omega⟩
  · have hnumber := Date.dayNumber_lt h'.date hafter
    omega

end DateTime

/-! ### Years from March to February -/

/-- The days before the year that begins with the March of a year, from the March of the year
zero on. -/
def daysBeforeMarch (year : Nat) : Nat := 365 * year + year / 4 - year / 100 + year / 400

theorem daysBeforeMarch_succ (year : Nat) :
    daysBeforeMarch (year + 1) = daysBeforeMarch year + yearLength (year + 1) := by
  have hfour : (year + 1) / 4 = year / 4 + if (year + 1) % 4 = 0 then 1 else 0 := by
    split <;> omega
  have hhundred : (year + 1) / 100 = year / 100 + if (year + 1) % 100 = 0 then 1 else 0 := by
    split <;> omega
  have hera : (year + 1) / 400 = year / 400 + if (year + 1) % 400 = 0 then 1 else 0 := by
    split <;> omega
  have hle : year / 100 ≤ year / 4 := by omega
  unfold daysBeforeMarch yearLength IsLeap
  rw [hfour, hhundred, hera]
  by_cases h4 : (year + 1) % 4 = 0
  · by_cases h100 : (year + 1) % 100 = 0
    · by_cases h400 : (year + 1) % 400 = 0
      · simp [h4, h100, h400]
        omega
      · simp [h4, h100, h400]
        omega
    · have h400 : (year + 1) % 400 ≠ 0 := by omega
      simp [h4, h100, h400]
      omega
  · have h100 : (year + 1) % 100 ≠ 0 := by omega
    have h400 : (year + 1) % 400 ≠ 0 := by omega
    simp [h4, h100, h400]
    omega

theorem daysBeforeMarch_era (year era : Nat) :
    daysBeforeMarch (year + 400 * era) = daysBeforeMarch year + 146097 * era := by
  have hfour : (year + 400 * era) / 4 = year / 4 + 100 * era := by omega
  have hhundred : (year + 400 * era) / 100 = year / 100 + 4 * era := by omega
  have hera : (year + 400 * era) / 400 = year / 400 + era := by omega
  have hle : year / 100 ≤ year / 4 := by omega
  unfold daysBeforeMarch
  omega

theorem daysInMonths_two (year : Nat) : daysInMonths year 2 + 306 = yearLength year := by
  unfold yearLength
  simp only [daysInMonths, monthLength]
  split <;> rfl

theorem daysBeforeMarch_eq (year : Nat) :
    daysBeforeMarch year + 60 = daysBeforeYear year + daysInMonths year 2 := by
  induction year with
  | zero => rfl
  | succ year ih =>
    have htwo := daysInMonths_two year
    have hnext := daysInMonths_two (year + 1)
    rw [daysBeforeMarch_succ, daysBeforeYear]
    omega

/-- The month `mp` of a year that begins in March, and the day of the month. -/
def marchDate (year mp day : Nat) : Date :=
  if mp < 10 then ⟨year, mp + 3, day⟩ else ⟨year + 1, mp - 9, day⟩

/-- The days before a month of a year that begins in March. -/
def daysToMonth (mp : Nat) : Nat := (153 * mp + 2) / 5

theorem daysInMonths_march (year : Nat) {mp : Nat} (h : mp < 10) :
    daysInMonths year (mp + 2) = daysInMonths year 2 + daysToMonth mp := by
  interval_cases mp <;> simp [daysInMonths, monthLength, daysToMonth, Nat.add_assoc]

theorem monthLength_march (year : Nat) {mp : Nat} (h : mp < 10) :
    daysToMonth mp + monthLength year (mp + 3) = daysToMonth (mp + 1) := by
  interval_cases mp <;> rfl

/-- A day of a year that begins in March is the date that many days on. -/
theorem marchDate_spec {year mp day : Nat} (hmp : mp < 12) (hday : 1 ≤ day)
    (hmonth : daysToMonth mp + day ≤ daysToMonth (mp + 1))
    (hyear : daysToMonth mp + day ≤ yearLength (year + 1)) :
    (marchDate year mp day).Valid ∧
      (marchDate year mp day).dayNumber + 1 =
        daysBeforeMarch year + 60 + daysToMonth mp + day := by
  have hfirst := daysBeforeMarch_eq year
  have htwo := daysInMonths_two year
  have hnext := daysInMonths_two (year + 1)
  unfold marchDate
  by_cases hlow : mp < 10
  · have hmonths := daysInMonths_march year hlow
    have hlength := monthLength_march year hlow
    rw [if_pos hlow]
    constructor
    · refine ⟨Nat.le_add_left 1 (mp + 2), ?_, hday, ?_⟩
      · change mp + 3 ≤ 12
        omega
      · change day ≤ monthLength year (mp + 3)
        omega
    · unfold Date.dayNumber
      change daysBeforeYear year + (daysInMonths year (mp + 2) + (day - 1)) + 1 = _
      omega
  · have hsucc : daysBeforeYear (year + 1) = daysBeforeYear year + yearLength year := rfl
    have hjanuary : daysInMonths (year + 1) 1 = 31 := rfl
    have hfebruary : daysInMonths (year + 1) 2 = 31 + monthLength (year + 1) 2 := rfl
    rw [if_neg hlow]
    have hcases : mp = 10 ∨ mp = 11 := by omega
    rcases hcases with rfl | rfl
    · have hten : daysToMonth 10 = 306 := rfl
      have heleven : daysToMonth (10 + 1) = 337 := rfl
      constructor
      · refine ⟨Nat.le_refl 1, Nat.le_add_left 1 11, hday, ?_⟩
        change day ≤ 31
        omega
      · unfold Date.dayNumber
        change daysBeforeYear (year + 1) + (0 + (day - 1)) + 1 = _
        omega
    · have heleven : daysToMonth 11 = 337 := rfl
      constructor
      · refine ⟨Nat.le_succ 1, Nat.le_add_left 2 10, hday, ?_⟩
        change day ≤ monthLength (year + 1) 2
        omega
      · unfold Date.dayNumber
        change daysBeforeYear (year + 1) + (daysInMonths (year + 1) 1 + (day - 1)) + 1 = _
        omega

end Calendar
