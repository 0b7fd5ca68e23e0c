import Wayfinder.Lib.Calendar
import Wayfinder.Lib.Numeral
import Wayfinder.Lib.Text

/-!
# Instants as texts

A key's expiry and a peer's last sight cross to the coordination server as texts. Both
conversions count the days in eras of four hundred years that begin with a March.
-/

namespace Wayfinder

open Calendar

set_option autoImplicit false

/-- The date of a day since the epoch. The integers are 64 bits wide and the divisions those of
Euclid; all that is divided otherwise is not negative. -/
def civilFromDays (days : Int) : Int × Int × Int :=
  let z := days + 719468
  let era := z / 146097
  let doe := z % 146097
  let yoe := (doe - doe / 1460 + doe / 36524 - doe / 146096) / 365
  let y := yoe + era * 400
  let doy := doe - (365 * yoe + yoe / 4 - yoe / 100)
  let mp := (5 * doy + 2) / 153
  let d := doy - (153 * mp + 2) / 5 + 1
  let m := if mp < 10 then mp + 3 else mp - 9
  (if m ≤ 2 then y + 1 else y, m, d)

def formatRfc3339 (unix : Nat) : List Char :=
  let civil := civilFromDays (unix / 86400 : Nat)
  let secsOfDay := unix % 86400
  showPadded 4 civil.1 ++ '-' :: (showPadded 2 civil.2.1 ++ '-' :: (showPadded 2 civil.2.2 ++
    'T' :: (showPadded 2 (secsOfDay / 3600 : Nat) ++
      ':' :: (showPadded 2 (secsOfDay % 3600 / 60 : Nat) ++
        ':' :: (showPadded 2 (secsOfDay % 60 : Nat) ++ ['Z'])))))

/-- The way back, for whatever numbers stand in the text. -/
def daysFromCivil (y m d : Int) : Int :=
  let y := if m ≤ 2 then y - 1 else y
  let era := y / 400
  let yoe := y % 400
  let mp := if m > 2 then m - 3 else m + 9
  let doy := (153 * mp + 2) / 5 + d - 1
  let doe := yoe * 365 + yoe / 4 - yoe / 100 + doy
  era * 146097 + doe - 719468

def parseRfc3339 (s : Option (List Char)) : Int :=
  match s with
  | none => 0
  | some s =>
    if utf8Len s < 19 then 0
    else
      let num (i j : Nat) : Option Int := (textBetween? s i j).bind (parseSigned (2 ^ 63))
      match num 0 4, num 5 7, num 8 10, num 11 13, num 14 16, num 17 19 with
      | some y, some m, some d, some hh, some mm, some ss =>
        daysFromCivil y m d * 86400 + hh * 3600 + mm * 60 + ss
      | _, _, _, _, _, _ => 0

/-! ### The date of a day -/

/-- The year of an era that a day of the era is in. -/
def yearOfEra (doe : Nat) : Nat := (doe - doe / 1460 + doe / 36524 - doe / 146096) / 365

theorem yearOfEra_mono {doe doe' : Nat} (h : doe ≤ doe') : yearOfEra doe ≤ yearOfEra doe' := by
  apply Nat.div_le_div_right
  induction h with
  | refl => exact Nat.le_refl _
  | @step m _ ih =>
    apply Nat.le_trans ih
    omega

theorem yearOfEra_ends : ∀ y < 400,
    yearOfEra (daysBeforeMarch y) = y ∧ yearOfEra (daysBeforeMarch (y + 1) - 1) = y := by
  decide +kernel

/-- The year is the one whose days the day is among. -/
theorem yearOfEra_spec {doe : Nat} (h : doe < 146097) :
    yearOfEra doe < 400 ∧ daysBeforeMarch (yearOfEra doe) ≤ doe ∧
      doe < daysBeforeMarch (yearOfEra doe + 1) := by
  have hlt : yearOfEra doe < 400 := by
    unfold yearOfEra
    omega
  refine ⟨hlt, ?_, ?_⟩
  · by_contra hbefore
    have hpos : yearOfEra doe ≠ 0 := by
      intro hzero
      rw [hzero] at hbefore
      exact hbefore (Nat.zero_le _)
    obtain ⟨y, hy⟩ := Nat.exists_eq_succ_of_ne_zero hpos
    rw [hy, Nat.succ_eq_add_one] at hbefore
    have hmono := yearOfEra_mono (Nat.le_sub_one_of_lt (Nat.lt_of_not_le hbefore))
    rw [(yearOfEra_ends y (by omega)).2] at hmono
    omega
  · by_contra hafter
    have hmono := yearOfEra_mono (Nat.le_of_not_lt hafter)
    by_cases hlast : yearOfEra doe + 1 < 400
    · rw [(yearOfEra_ends _ hlast).1] at hmono
      omega
    · have hera : daysBeforeMarch (yearOfEra doe + 1) = 146097 := by
        rw [show yearOfEra doe + 1 = 400 by omega]
        rfl
      omega

theorem yearOfEra_cast (doe : Nat) :
    ((doe : Int) - doe / 1460 + doe / 36524 - doe / 146096) / 365 = (yearOfEra doe : Int) := by
  unfold yearOfEra
  omega

theorem daysBeforeMarch_cast {yoe : Nat} (h : yoe < 400) :
    365 * (yoe : Int) + yoe / 4 - yoe / 100 = (daysBeforeMarch yoe : Int) := by
  unfold daysBeforeMarch
  omega

/-- The month of the date counts from January, the year begins with it. -/
theorem marchDate_cast (y day : Nat) {mp : Nat} (hmp : mp < 12) :
    (if (if (mp : Int) < 10 then (mp : Int) + 3 else mp - 9) ≤ 2 then (y : Int) + 1 else y,
      (if (mp : Int) < 10 then (mp : Int) + 3 else mp - 9), (day : Int)) =
      (((marchDate y mp day).year : Int), ((marchDate y mp day).month : Int),
        ((marchDate y mp day).day : Int)) := by
  unfold marchDate
  by_cases hlow : mp < 10
  · have hint : (mp : Int) < 10 := by omega
    have hmonth : ¬(mp : Int) + 3 ≤ 2 := by omega
    rw [if_pos hlow, if_pos hint, if_neg hmonth]
    rfl
  · have hint : ¬(mp : Int) < 10 := by omega
    have hmonth : (mp : Int) - 9 ≤ 2 := by omega
    have hcast : ((mp - 9 : Nat) : Int) = mp - 9 := by omega
    rw [if_neg hlow, if_neg hint, if_pos hmonth]
    change (_, (mp : Int) - 9, _) = (_, ((mp - 9 : Nat) : Int), _)
    rw [hcast]
    rfl

theorem yearLength_le (year : Nat) : yearLength year ≤ 366 := by
  unfold yearLength
  split
  · exact Nat.le_refl _
  · exact Nat.le_succ _

/-- The year of the March before a day. -/
def marchYear (z : Nat) : Nat := yearOfEra (z % 146097) + 400 * (z / 146097)

/-- The days of that year before the day. -/
def dayOfMarchYear (z : Nat) : Nat := z % 146097 - daysBeforeMarch (yearOfEra (z % 146097))

def monthOfMarchYear (z : Nat) : Nat := (5 * dayOfMarchYear z + 2) / 153

def dayOfMonth (z : Nat) : Nat := dayOfMarchYear z - daysToMonth (monthOfMarchYear z) + 1

/-- The date that is `z` days after the first of March of the year zero. -/
def dateFromMarch (z : Nat) : Date := marchDate (marchYear z) (monthOfMarchYear z) (dayOfMonth z)

section Parts
variable (z : Nat)

theorem yearOfEra_mod :
    yearOfEra (z % 146097) < 400 ∧ daysBeforeMarch (yearOfEra (z % 146097)) ≤ z % 146097 ∧
      z % 146097 < daysBeforeMarch (yearOfEra (z % 146097) + 1) := by
  apply yearOfEra_spec
  omega

theorem daysBeforeMarchYear : daysBeforeMarch (marchYear z) + dayOfMarchYear z = z := by
  obtain ⟨_, hstart, _⟩ := yearOfEra_mod z
  unfold marchYear dayOfMarchYear
  rw [daysBeforeMarch_era]
  omega

theorem dayOfMarchYear_lt : dayOfMarchYear z < yearLength (marchYear z + 1) := by
  obtain ⟨_, hstart, hend⟩ := yearOfEra_mod z
  have hera : marchYear z + 1 = yearOfEra (z % 146097) + 1 + 400 * (z / 146097) := by
    unfold marchYear
    omega
  have hsucc := daysBeforeMarch_succ (marchYear z)
  have hdays := daysBeforeMarchYear z
  rw [hera, daysBeforeMarch_era, ← hera] at hsucc
  omega

theorem monthOfMarchYear_lt : monthOfMarchYear z < 12 := by
  have hday := dayOfMarchYear_lt z
  have hlength := yearLength_le (marchYear z + 1)
  unfold monthOfMarchYear
  omega

theorem dayOfMonth_spec :
    daysToMonth (monthOfMarchYear z) + dayOfMonth z = dayOfMarchYear z + 1 ∧
      dayOfMarchYear z < daysToMonth (monthOfMarchYear z + 1) := by
  unfold dayOfMonth monthOfMarchYear daysToMonth
  omega

theorem dateFromMarch_spec :
    (dateFromMarch z).Valid ∧ (dateFromMarch z).dayNumber = z + 60 := by
  obtain ⟨hday, hnext⟩ := dayOfMonth_spec z
  have hyear := daysBeforeMarchYear z
  have hlength := dayOfMarchYear_lt z
  have hpos : 1 ≤ dayOfMonth z := Nat.le_add_left ..
  have hmonth : daysToMonth (monthOfMarchYear z) + dayOfMonth z ≤
      daysToMonth (monthOfMarchYear z + 1) := by omega
  have hdays : daysToMonth (monthOfMarchYear z) + dayOfMonth z ≤
      yearLength (marchYear z + 1) := by omega
  obtain ⟨hvalid, hnumber⟩ := marchDate_spec (monthOfMarchYear_lt z) hpos hmonth hdays
  refine ⟨hvalid, ?_⟩
  unfold dateFromMarch
  omega

theorem marchYear_cast :
    (yearOfEra (z % 146097) : Int) + (z : Int) / 146097 * 400 = marchYear z := by
  unfold marchYear
  omega

theorem dayOfMarchYear_cast :
    (z : Int) % 146097 - (365 * (yearOfEra (z % 146097) : Int) +
      (yearOfEra (z % 146097) : Int) / 4 - (yearOfEra (z % 146097) : Int) / 100) =
        dayOfMarchYear z := by
  obtain ⟨hyoe, hstart, _⟩ := yearOfEra_mod z
  rw [daysBeforeMarch_cast hyoe]
  unfold dayOfMarchYear
  omega

theorem monthOfMarchYear_cast :
    (5 * (dayOfMarchYear z : Int) + 2) / 153 = monthOfMarchYear z := by
  unfold monthOfMarchYear
  omega

theorem dayOfMonth_cast :
    (dayOfMarchYear z : Int) - (153 * (monthOfMarchYear z : Int) + 2) / 5 + 1 = dayOfMonth z := by
  obtain ⟨hday, _⟩ := dayOfMonth_spec z
  unfold daysToMonth at hday
  omega

end Parts

theorem civilFromDays_eq {days : Int} {z : Nat} (hz : days + 719468 = z) :
    civilFromDays days =
      (((dateFromMarch z).year : Int), ((dateFromMarch z).month : Int),
        ((dateFromMarch z).day : Int)) := by
  have hyoe : ((z : Int) % 146097 - (z : Int) % 146097 / 1460 + (z : Int) % 146097 / 36524 -
      (z : Int) % 146097 / 146096) / 365 = (yearOfEra (z % 146097) : Int) := by
    rw [← yearOfEra_cast]
    rfl
  unfold civilFromDays
  dsimp only
  rw [hz, hyoe, marchYear_cast, dayOfMarchYear_cast, monthOfMarchYear_cast, dayOfMonth_cast]
  exact marchDate_cast _ _ (monthOfMarchYear_lt z)

/-! ### The day of a date -/

theorem daysBeforeMarch_of_era (year : Nat) :
    (year : Int) / 400 * 146097 + ((year : Int) % 400 * 365 + (year : Int) % 400 / 4 -
      (year : Int) % 400 / 100) = daysBeforeMarch year := by
  have hmod : year % 400 < 400 := Nat.mod_lt _ (by decide)
  have hera := daysBeforeMarch_era (year % 400) (year / 400)
  have hcast := daysBeforeMarch_cast hmod
  rw [Nat.mod_add_div] at hera
  omega

theorem daysFromCivil_march {year mp : Nat} (day : Nat) (hmp : mp < 12) :
    daysFromCivil (marchDate year mp day).year (marchDate year mp day).month
        (marchDate year mp day).day =
      daysBeforeMarch year + daysToMonth mp + day - 1 - 719468 := by
  have hera := daysBeforeMarch_of_era year
  have hmonth : (153 * (mp : Int) + 2) / 5 = daysToMonth mp := by
    unfold daysToMonth
    omega
  unfold marchDate
  by_cases hlow : mp < 10
  · have hjan : ¬((mp + 3 : Nat) : Int) ≤ 2 := by omega
    have hfeb : ((mp + 3 : Nat) : Int) > 2 := by omega
    have hback : ((mp + 3 : Nat) : Int) - 3 = mp := by omega
    rw [if_pos hlow]
    unfold daysFromCivil
    dsimp only
    rw [if_neg hjan, if_pos hfeb, hback, hmonth]
    omega
  · have hjan : ((mp - 9 : Nat) : Int) ≤ 2 := by omega
    have hfeb : ¬((mp - 9 : Nat) : Int) > 2 := by omega
    have hback : ((mp - 9 : Nat) : Int) + 9 = mp := by omega
    have hyear : ((year + 1 : Nat) : Int) - 1 = year := by omega
    rw [if_neg hlow]
    unfold daysFromCivil
    dsimp only
    rw [if_pos hjan, if_neg hfeb, hback, hmonth, hyear]
    omega

theorem daysFromCivil_dateFromMarch (z : Nat) :
    daysFromCivil (dateFromMarch z).year (dateFromMarch z).month (dateFromMarch z).day =
      (z : Int) - 719468 := by
  obtain ⟨hday, _⟩ := dayOfMonth_spec z
  have hyear := daysBeforeMarchYear z
  unfold dateFromMarch
  rw [daysFromCivil_march _ (monthOfMarchYear_lt z)]
  omega

/-! ### The text of an instant -/

def epochDay : Nat := (Date.mk 1970 1 1).dayNumber

theorem epochDay_eq : epochDay = 719528 := by
  have hdate : dateFromMarch 719468 = Date.mk 1970 1 1 := by decide +kernel
  have hnumber := (dateFromMarch_spec 719468).2
  rw [hdate] at hnumber
  exact hnumber

/-- Four digits of the year and two of everything else. -/
def stampText (t : DateTime) : List Char :=
  fixedDigits 4 t.date.year ++ '-' :: (fixedDigits 2 t.date.month ++ '-' ::
    (fixedDigits 2 t.date.day ++ 'T' :: (fixedDigits 2 t.hour ++ ':' ::
      (fixedDigits 2 t.minute ++ ':' :: (fixedDigits 2 t.second ++ ['Z'])))))

/-- The point in time that a number of seconds since the epoch is. -/
def instantOf (unix : Nat) : DateTime :=
  ⟨dateFromMarch (unix / 86400 + 719468), unix % 86400 / 3600, unix % 86400 % 3600 / 60,
    unix % 86400 % 60⟩

section Instant
variable {t t' : DateTime} {unix unix' : Nat}

theorem instantOf_valid (unix : Nat) : (instantOf unix).Valid := by
  refine ⟨(dateFromMarch_spec _).1, ?_, ?_, ?_⟩
  · change unix % 86400 / 3600 < 24
    omega
  · change unix % 86400 % 3600 / 60 < 60
    omega
  · change unix % 86400 % 60 < 60
    omega

theorem secondOfDay_instantOf (unix : Nat) : (instantOf unix).secondOfDay = unix % 86400 := by
  change unix % 86400 / 3600 * 3600 + unix % 86400 % 3600 / 60 * 60 + unix % 86400 % 60 =
    unix % 86400
  omega

theorem secondNumber_instantOf (unix : Nat) :
    (instantOf unix).secondNumber = unix + 86400 * epochDay := by
  have hdate := (dateFromMarch_spec (unix / 86400 + 719468)).2
  unfold DateTime.secondNumber
  rw [secondOfDay_instantOf, epochDay_eq]
  change (dateFromMarch (unix / 86400 + 719468)).dayNumber * 86400 + unix % 86400 = _
  rw [hdate]
  omega

theorem year_lt {year : Nat} (h : t.secondNumber < 86400 * daysBeforeYear year) :
    t.date.year < year := by
  by_contra hge
  have hle := daysBeforeYear_le (Nat.le_of_not_lt hge)
  unfold DateTime.secondNumber Date.dayNumber at h
  omega

theorem day_lt_hundred (h : t.Valid) : t.date.day < 10 ^ 2 := by
  apply Nat.lt_of_le_of_lt h.date.day_le
  unfold monthLength
  split
  · split <;> decide
  all_goals decide

theorem formatRfc3339_eq (h : (instantOf unix).date.year < 10000) :
    formatRfc3339 unix = stampText (instantOf unix) := by
  have hvalid := instantOf_valid unix
  have hz : ((unix / 86400 : Nat) : Int) + 719468 = (unix / 86400 + 719468 : Nat) := by omega
  have hmonth := hvalid.date.month_le
  have hday := day_lt_hundred hvalid
  unfold formatRfc3339
  dsimp only
  rw [civilFromDays_eq hz]
  change showPadded 4 (instantOf unix).date.year ++ '-' ::
    (showPadded 2 (instantOf unix).date.month ++ '-' ::
      (showPadded 2 (instantOf unix).date.day ++ 'T' ::
        (showPadded 2 (instantOf unix).hour ++ ':' ::
          (showPadded 2 (instantOf unix).minute ++ ':' ::
            (showPadded 2 (instantOf unix).second ++ ['Z']))))) = _
  have hhour := hvalid.hour
  have hminute := hvalid.minute
  have hsecond := hvalid.second
  rw [showPadded_eq (by decide) h, showPadded_eq (by decide) (by omega),
    showPadded_eq (by decide) hday, showPadded_eq (by decide) (by omega),
    showPadded_eq (by decide) (by omega), showPadded_eq (by decide) (by omega)]
  rfl

theorem stampText_lt (h : t'.Valid) (hyear : t'.date.year < 10000) (hday : t'.date.day < 10 ^ 2)
    (hbefore : t.Before t') : stampText t < stampText t' := by
  have hmonth := h.date.month_le
  have hhour := h.hour
  have hminute := h.minute
  have hsecond := h.second
  have hfields : t.date.year < t'.date.year ∨ t.date.year = t'.date.year ∧
      (t.date.month < t'.date.month ∨ t.date.month = t'.date.month ∧
        (t.date.day < t'.date.day ∨ t.date.day = t'.date.day ∧
          (t.hour < t'.hour ∨ t.hour = t'.hour ∧
            (t.minute < t'.minute ∨ t.minute = t'.minute ∧ t.second < t'.second)))) := by
    rcases hbefore with hdate | ⟨hdate, htime⟩
    · unfold Date.Before at hdate
      omega
    · exact Or.inr ⟨by rw [hdate], Or.inr ⟨by rw [hdate], Or.inr ⟨by rw [hdate], htime⟩⟩⟩
  have hcons : ∀ (ch : Char) {r r' : List Char}, r < r' → ch :: r < ch :: r' :=
    fun _ _ _ hlt => List.cons_lt_cons_iff.mpr (Or.inr ⟨rfl, hlt⟩)
  unfold stampText
  apply fixedDigits_append_lt hyear
  apply hfields.imp_right
  apply And.imp_right
  intro hfields
  apply hcons
  apply fixedDigits_append_lt (by omega)
  apply hfields.imp_right
  apply And.imp_right
  intro hfields
  apply hcons
  apply fixedDigits_append_lt hday
  apply hfields.imp_right
  apply And.imp_right
  intro hfields
  apply hcons
  apply fixedDigits_append_lt (by omega)
  apply hfields.imp_right
  apply And.imp_right
  intro hfields
  apply hcons
  apply fixedDigits_append_lt (by omega)
  apply hfields.imp_right
  apply And.imp_right
  intro hfields
  apply hcons
  exact fixedDigits_append_lt (by omega) (Or.inl hfields)

theorem utf8Len_fixedDigits (width n : Nat) : utf8Len (fixedDigits width n) = width := by
  rw [utf8Len_of_digits (isDigit_fixedDigits width n), length_fixedDigits]

/-- What is left of a text behind its first `i` bytes. -/
def Behind (text : List Char) (i : Nat) (rest : List Char) : Prop :=
  ∃ front, utf8Len front = i ∧ text = front ++ rest

/-- A number of the text and the character after it. -/
theorem number_step {text rest : List Char} {i width n : Nat} {ch : Char}
    (h : Behind text i (fixedDigits width n ++ ch :: rest)) (hch : ch.utf8Size = 1)
    (hwidth : 0 < width) (hn : n < 10 ^ width) (hbig : 10 ^ width ≤ 2 ^ 63) :
    (textBetween? text i (i + width)).bind (parseSigned (2 ^ 63)) = some (n : Int) ∧
      Behind text (i + width + 1) rest := by
  obtain ⟨front, hi, rfl⟩ := h
  have hj : i + utf8Len (fixedDigits width n) = i + width := by rw [utf8Len_fixedDigits]
  constructor
  · rw [textBetween?_append hi hj, Option.bind_some]
    exact parseSigned_of_digits? (digits?_fixedDigits hwidth hn) (Nat.lt_of_lt_of_le hn hbig)
  · refine ⟨front ++ (fixedDigits width n ++ [ch]), ?_, ?_⟩
    · rw [utf8Len_append, utf8Len_append, utf8Len_fixedDigits, utf8Len_cons, hch, hi]
      rfl
    · rw [List.append_assoc, List.append_assoc]
      rfl

theorem parseRfc3339_stampText (h : t.Valid) (hyear : t.date.year < 10000) :
    parseRfc3339 (some (stampText t)) =
      daysFromCivil t.date.year t.date.month t.date.day * 86400 + t.secondOfDay := by
  have hmonth := h.date.month_le
  have hhour := h.hour
  have hminute := h.minute
  have hsecond := h.second
  have hstart : Behind (stampText t) 0 (stampText t) := ⟨[], rfl, rfl⟩
  obtain ⟨hy, hrest⟩ := number_step hstart (by decide) (by decide) hyear (by decide)
  obtain ⟨hm, hrest⟩ := number_step hrest (by decide) (by decide) (by omega) (by decide)
  obtain ⟨hd, hrest⟩ := number_step hrest (by decide) (by decide) (day_lt_hundred h) (by decide)
  obtain ⟨hh, hrest⟩ := number_step hrest (by decide) (by decide) (by omega) (by decide)
  obtain ⟨hmi, hrest⟩ := number_step hrest (by decide) (by decide) (by omega) (by decide)
  obtain ⟨hs, front, hfront, htext⟩ :=
    number_step hrest (by decide) (by decide) (by omega) (by decide)
  have hlen : ¬utf8Len (stampText t) < 19 := by
    rw [htext, utf8Len_append, hfront]
    omega
  unfold parseRfc3339
  dsimp only
  rw [if_neg hlen]
  simp only [Nat.zero_add] at hy hm hd hh hmi hs
  rw [hy, hm, hd, hh, hmi, hs]
  unfold DateTime.secondOfDay
  dsimp only
  omega

end Instant

/-- Every instant before the year 10000 is written as its date and time, read back from the
text, and the texts are in the order of the instants. -/
theorem rfc3339_exact (unix : Nat)
    (h : unix + 86400 * epochDay < 86400 * daysBeforeYear 10000) :
    (∃ t : DateTime, t.Valid ∧ t.secondNumber = unix + 86400 * epochDay ∧
      formatRfc3339 unix = stampText t) ∧
    parseRfc3339 (some (formatRfc3339 unix)) = unix ∧
    ∀ unix', unix' + 86400 * epochDay < 86400 * daysBeforeYear 10000 →
      (formatRfc3339 unix < formatRfc3339 unix' ↔ unix < unix') := by
  have hyear : ∀ {u}, u + 86400 * epochDay < 86400 * daysBeforeYear 10000 →
      (instantOf u).date.year < 10000 := by
    intro u hu
    rw [← secondNumber_instantOf] at hu
    exact year_lt hu
  have hlt : ∀ {u u'}, u < u' → u' + 86400 * epochDay < 86400 * daysBeforeYear 10000 →
      formatRfc3339 u < formatRfc3339 u' := by
    intro u u' huu' hu'
    have hu : u + 86400 * epochDay < 86400 * daysBeforeYear 10000 :=
      Nat.lt_trans (Nat.add_lt_add_right huu' _) hu'
    rw [formatRfc3339_eq (hyear hu), formatRfc3339_eq (hyear hu')]
    have hvalid := instantOf_valid u'
    apply stampText_lt hvalid (hyear hu') (day_lt_hundred hvalid)
    apply DateTime.before_of_lt (instantOf_valid u) hvalid
    rw [secondNumber_instantOf, secondNumber_instantOf]
    exact Nat.add_lt_add_right huu' _
  refine ⟨⟨instantOf unix, instantOf_valid unix, secondNumber_instantOf unix,
    formatRfc3339_eq (hyear h)⟩, ?_, ?_⟩
  · rw [formatRfc3339_eq (hyear h), parseRfc3339_stampText (instantOf_valid unix) (hyear h),
      secondOfDay_instantOf]
    have hdate := daysFromCivil_dateFromMarch (unix / 86400 + 719468)
    change daysFromCivil (dateFromMarch (unix / 86400 + 719468)).year
      (dateFromMarch (unix / 86400 + 719468)).month
      (dateFromMarch (unix / 86400 + 719468)).day * 86400 + _ = _
    rw [hdate]
    omega
  · intro unix' h'
    constructor
    · intro htext
      rcases Nat.lt_trichotomy unix unix' with hless | heq | hmore
      · exact hless
      · rw [heq] at htext
        exact absurd htext (List.lt_irrefl _)
      · exact absurd htext (List.lt_asymm (hlt hmore h))
    · intro hless
      exact hlt hless h'

theorem daysBeforeYear_tenThousand : daysBeforeYear 10000 = 3652425 := by
  have hmarch := daysBeforeMarch_eq 10000
  have hdays : daysBeforeMarch 10000 = 3652425 := by decide
  have hmonths : daysInMonths 10000 2 = 60 := by decide
  omega

theorem rfc3339_exact_leapDay :
    formatRfc3339 951782400 = "2000-02-29T00:00:00Z".toList ∧
      parseRfc3339 (some (formatRfc3339 951782400)) = 951782400 := by
  have hyear : 951782400 + 86400 * epochDay < 86400 * daysBeforeYear 10000 := by
    rw [epochDay_eq, daysBeforeYear_tenThousand]
    decide
  exact ⟨by decide +kernel, (rfc3339_exact 951782400 hyear).2.1⟩

end Wayfinder
