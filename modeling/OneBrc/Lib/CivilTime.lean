import Mathlib.Data.List.Basic
import Mathlib.Tactic.IntervalCases
import OneBrc.Lib.Digits

/-! The proleptic Gregorian calendar and the text of a UTC time with milliseconds. -/
namespace OneBrc.Lib.CivilTime

structure Date where
  year : ℕ
  month : ℕ
  day : ℕ
  deriving DecidableEq

/-- The date that is `days` after 1970-01-01; eras of 400 years start on the first of March. -/
def civilFromDays (days : ℕ) : Date :=
  let z := days + 719468
  let era := z / 146097
  let dayOfEra := z % 146097
  let yearOfEra := (dayOfEra - dayOfEra / 1460 + dayOfEra / 36524 - dayOfEra / 146096) / 365
  let dayOfYear := dayOfEra - (365 * yearOfEra + yearOfEra / 4 - yearOfEra / 100)
  let shifted := (5 * dayOfYear + 2) / 153
  let month := if shifted < 10 then shifted + 3 else shifted - 9
  { year := yearOfEra + era * 400 + if month ≤ 2 then 1 else 0
    month
    day := dayOfYear - (153 * shifted + 2) / 5 + 1 }

/-- Decimal digits with leading zeros up to `width`. -/
def pad (width n : ℕ) : String :=
  let digits := Nat.repr n
  String.ofList (List.replicate (width - digits.length) '0') ++ digits

/-- The layout `2006-01-02T15:04:05.000Z` of a time in microseconds after 1970. -/
def isoTime (micros : ℕ) : String :=
  let date := civilFromDays (micros / 86400000000)
  let millis := micros % 86400000000 / 1000
  pad 4 date.year ++ "-" ++ pad 2 date.month ++ "-" ++ pad 2 date.day ++ "T" ++
    pad 2 (millis / 3600000) ++ ":" ++ pad 2 (millis / 60000 % 60) ++ ":" ++
    pad 2 (millis / 1000 % 60) ++ "." ++ pad 3 (millis % 1000) ++ "Z"

example : civilFromDays 20512 = ⟨2026, 2, 28⟩ := by decide

/-- Days from 1970-01-01 to the first of January of a year. -/
def dayFromYear (year : ℤ) : ℤ :=
  365 * (year - 1970) + (year - 1969) / 4 - (year - 1901) / 100 + (year - 1601) / 400

def isLeapYear (year : ℤ) : Bool := year % 4 = 0 && (year % 100 ≠ 0 || year % 400 = 0)

/-- Days of the year before the first of a month. -/
def daysBeforeMonth (leap : Bool) : ℕ → ℤ
  | 1 => 0
  | 2 => 31
  | 3 => if leap then 60 else 59
  | 4 => if leap then 91 else 90
  | 5 => if leap then 121 else 120
  | 6 => if leap then 152 else 151
  | 7 => if leap then 182 else 181
  | 8 => if leap then 213 else 212
  | 9 => if leap then 244 else 243
  | 10 => if leap then 274 else 273
  | 11 => if leap then 305 else 304
  | _ => if leap then 335 else 334

/-- Days from 1970-01-01 to a date. -/
def daysFromCivil (date : Date) : ℤ :=
  dayFromYear date.year + daysBeforeMonth (isLeapYear date.year) date.month + (date.day - 1)

/-- A number of a fixed width and the character after it, at the head of a text. -/
def field (width : ℕ) (separator : Char) (cs : List Char) : Option (ℕ × List Char) :=
  if (cs.take width).length = width ∧ Digits.allDigits (cs.take width) = true ∧
    cs[width]? = some separator
  then some (Digits.value (cs.take width), cs.drop (width + 1))
  else none

/-- Milliseconds after 1970 of a text with the layout `2006-01-02T15:04:05.000Z`. -/
def parseIsoTime (text : String) : Option ℤ := do
  let (year, cs) ← field 4 '-' text.toList
  let (month, cs) ← field 2 '-' cs
  let (day, cs) ← field 2 'T' cs
  let (hour, cs) ← field 2 ':' cs
  let (minute, cs) ← field 2 ':' cs
  let (second, cs) ← field 2 '.' cs
  let (millis, cs) ← field 3 'Z' cs
  guard (cs = [] ∧ 1 ≤ month ∧ month ≤ 12 ∧ 1 ≤ day ∧ day ≤ 31 ∧ minute < 60 ∧ second < 60 ∧
    (hour < 24 ∨ hour = 24 ∧ minute = 0 ∧ second = 0 ∧ millis = 0))
  return (((daysFromCivil ⟨year, month, day⟩ * 24 + hour) * 60 + minute) * 60 + second) * 1000 +
    millis

section RoundTrip

theorem toList_pad (width n : ℕ) : (pad width n).toList =
    List.replicate (width - n.repr.length) '0' ++ n.repr.toList := by
  rw [pad, String.toList_append, String.toList_ofList]

theorem length_pad {width n : ℕ} (h : n < 10 ^ width) (hw : 0 < width) :
    (pad width n).toList.length = width := by
  have hle : n.repr.length ≤ width := (Nat.length_repr_le_iff hw).mpr h
  rw [toList_pad, List.length_append, List.length_replicate, String.length_toList]
  omega

theorem value_pad (width n : ℕ) : Digits.value (pad width n).toList = n := by
  rw [toList_pad, Digits.value_replicate_zero, Digits.value_repr]

theorem allDigits_pad (width n : ℕ) : Digits.allDigits (pad width n).toList = true := by
  have h := Digits.allDigits_repr n
  rw [toList_pad, Digits.allDigits, List.all_append, Bool.and_eq_true]
  refine ⟨?_, h⟩
  rw [List.all_eq_true]
  intro c hc
  rw [List.eq_of_mem_replicate hc]
  decide

theorem field_pad {width n : ℕ} (h : n < 10 ^ width) (hw : 0 < width) (separator : Char)
    (cs : List Char) :
    field width separator ((pad width n).toList ++ separator :: cs) = some (n, cs) := by
  have hlength := length_pad h hw
  have hseparator : ((pad width n).toList ++ separator :: cs)[width]? = some separator := by
    rw [List.getElem?_append_right hlength.le, hlength, Nat.sub_self]
    rfl
  have hrest : ((pad width n).toList ++ separator :: cs).drop (width + 1) = cs := by
    rw [← List.drop_drop, List.drop_left' hlength]
    rfl
  rw [field, List.take_left' hlength, hrest, if_pos, value_pad]
  exact ⟨hlength, allDigits_pad width n, hseparator⟩

/-- Reading goes on after a padded number. -/
theorem field_bind {α : Type} {width n : ℕ} (h : n < 10 ^ width) (hw : 0 < width)
    (separator : Char) (cs : List Char) (f : ℕ × List Char → Option α) :
    (field width separator ((pad width n).toList ++ separator :: cs) >>= f) = f (n, cs) := by
  rw [field_pad h hw]
  rfl

/-- Days of an era without those that its leap years add. -/
private def plainDays (dayOfEra : ℕ) : ℕ :=
  dayOfEra - dayOfEra / 1460 + dayOfEra / 36524 - dayOfEra / 146096

/-- Day of the era on which a year of the era starts. -/
private def yearStart (yearOfEra : ℕ) : ℕ := 365 * yearOfEra + yearOfEra / 4 - yearOfEra / 100

private theorem plainDays_mono {d e : ℕ} (h : d ≤ e) (he : e < 146097) :
    plainDays d ≤ plainDays e := by
  induction e, h using Nat.le_induction with
  | base => exact le_rfl
  | succ e _ ih =>
    apply (ih (by omega)).trans
    unfold plainDays
    omega

private theorem plainDays_yearStart : ∀ y < 400, (0 < y → plainDays (yearStart y - 1) < 365 * y) ∧
    (y < 399 → 365 * (y + 1) ≤ plainDays (yearStart (y + 1))) := by
  decide +kernel

/-- The year of the era is the one in which the day lies. -/
private theorem yearStart_le {d : ℕ} (hd : d < 146097) : plainDays d / 365 < 400 ∧
    yearStart (plainDays d / 365) ≤ d ∧
      (plainDays d / 365 < 399 → d < yearStart (plainDays d / 365 + 1)) := by
  have hlast : plainDays d ≤ 145999 := plainDays_mono (e := 146096) (by omega) (by omega)
  have hyear : plainDays d / 365 < 400 := by omega
  obtain ⟨hlow, hhigh⟩ := plainDays_yearStart _ hyear
  have hdiv : 365 * (plainDays d / 365) ≤ plainDays d ∧
      plainDays d < 365 * (plainDays d / 365) + 365 := by omega
  generalize plainDays d / 365 = y at *
  refine ⟨hyear, ?_, ?_⟩
  · by_contra hlt
    have hpos : 0 < y := by
      apply Nat.pos_of_ne_zero
      rintro rfl
      exact hlt (Nat.zero_le d)
    have hbound : yearStart y ≤ 146097 := by unfold yearStart; omega
    have hmono := plainDays_mono (show d ≤ yearStart y - 1 by omega) (by omega)
    have := hlow hpos
    omega
  · intro hy
    by_contra hlt
    have hmono := plainDays_mono (show yearStart (y + 1) ≤ d by omega) hd
    have := hhigh hy
    omega

private theorem yearStart_succ : ∀ y < 399, yearStart (y + 1) ≤ yearStart y + 366 ∧
    (yearStart (y + 1) = yearStart y + 366 →
      (y + 1) % 4 = 0 ∧ ((y + 1) % 100 ≠ 0 ∨ (y + 1) % 400 = 0)) := by
  decide +kernel

/-- A year of the era has 365 days, and one more if a leap year ends it. -/
private theorem dayOfYear_le {d : ℕ} (hd : d < 146097) (era : ℕ) :
    d - yearStart (plainDays d / 365) ≤ 365 ∧ (d - yearStart (plainDays d / 365) = 365 →
      isLeapYear ((plainDays d / 365 + era * 400 : ℕ) + 1) = true) := by
  obtain ⟨hyear, hlow, hhigh⟩ := yearStart_le hd
  generalize plainDays d / 365 = y at *
  have hleap (h : (y + 1) % 4 = 0 ∧ ((y + 1) % 100 ≠ 0 ∨ (y + 1) % 400 = 0)) :
      isLeapYear ((y + era * 400 : ℕ) + 1) = true := by
    simp only [isLeapYear, Bool.and_eq_true, Bool.or_eq_true, decide_eq_true_eq]
    omega
  by_cases hlast : y < 399
  · have hlt := hhigh hlast
    obtain ⟨hsucc, hday⟩ := yearStart_succ y hlast
    exact ⟨by omega, fun h => hleap (hday (by omega))⟩
  · obtain rfl : y = 399 := by omega
    have hstart : yearStart 399 = 145731 := by decide
    exact ⟨by omega, fun _ => hleap (by decide)⟩

theorem dayFromYear_succ (year : ℤ) : dayFromYear (year + 1) =
    dayFromYear year + 365 + if isLeapYear year then 1 else 0 := by
  unfold dayFromYear isLeapYear
  split
  · next h =>
    simp only [Bool.and_eq_true, Bool.or_eq_true, decide_eq_true_eq] at h
    omega
  · next h =>
    simp only [Bool.and_eq_true, Bool.or_eq_true, decide_eq_true_eq, not_and_or, not_or] at h
    omega

/-- The first of March, counted from its own year and from the next one. -/
private theorem march (era year : ℕ) (hyear : year < 400) :
    dayFromYear ((year + era * 400 : ℕ) + 1) - 306 =
      ((yearStart year + era * 146097 : ℕ) : ℤ) - 719468 := by
  unfold dayFromYear yearStart
  omega

theorem civilFromDays_bounds (days : ℕ) : 1 ≤ (civilFromDays days).month ∧
    (civilFromDays days).month ≤ 12 ∧ 1 ≤ (civilFromDays days).day ∧
      (civilFromDays days).day ≤ 31 := by
  obtain ⟨hhigh, -⟩ := dayOfYear_le (Nat.mod_lt (days + 719468) (by decide : 0 < 146097)) 0
  simp only [plainDays, yearStart] at hhigh
  simp only [civilFromDays]
  split <;> omega

/-- The date of a day of a year that starts in March. -/
private def marchDate (year dayOfYear : ℕ) : Date :=
  let shifted := (5 * dayOfYear + 2) / 153
  let month := if shifted < 10 then shifted + 3 else shifted - 9
  ⟨year + if month ≤ 2 then 1 else 0, month, dayOfYear - (153 * shifted + 2) / 5 + 1⟩

private theorem civilFromDays_eq (days : ℕ) : civilFromDays days =
    marchDate (plainDays ((days + 719468) % 146097) / 365 + (days + 719468) / 146097 * 400)
      ((days + 719468) % 146097 - yearStart (plainDays ((days + 719468) % 146097) / 365)) := rfl

/-- Reading back a date, month by month. -/
private theorem daysFromCivil_marchDate (year : ℕ) {dayOfYear : ℕ} (h : dayOfYear ≤ 365) :
    daysFromCivil (marchDate year dayOfYear) = dayFromYear (year + 1) - 306 + dayOfYear := by
  have hnext := dayFromYear_succ year
  have hlt : (5 * dayOfYear + 2) / 153 < 12 := by omega
  simp only [daysFromCivil, marchDate]
  generalize hshifted : (5 * dayOfYear + 2) / 153 = shifted at hlt
  interval_cases shifted <;> cases hleap : isLeapYear year <;>
    simp only [hleap, daysBeforeMonth, Nat.reduceLT, Nat.reduceAdd, Nat.reduceSub, Nat.reduceMul,
      Nat.reduceLeDiff, Nat.reduceDiv, Nat.add_zero, Nat.cast_succ, ↓reduceIte,
      Bool.false_eq_true] at hnext ⊢ <;> omega

private theorem marchDate_day_le (year : ℕ) {dayOfYear : ℕ} (h : dayOfYear ≤ 365)
    (hleap : dayOfYear = 365 → isLeapYear (year + 1) = true) :
    (marchDate year dayOfYear).day ≤
      if (marchDate year dayOfYear).month = 2 then
        if isLeapYear (marchDate year dayOfYear).year then 29 else 28
      else if (marchDate year dayOfYear).month = 4 ∨ (marchDate year dayOfYear).month = 6 ∨
        (marchDate year dayOfYear).month = 9 ∨ (marchDate year dayOfYear).month = 11 then 30
      else 31 := by
  have hlt : (5 * dayOfYear + 2) / 153 < 12 := by omega
  unfold marchDate
  dsimp only
  generalize hshifted : (5 * dayOfYear + 2) / 153 = shifted at hlt ⊢
  interval_cases shifted <;> simp <;> try omega
  -- the year ends with February
  cases hyear : isLeapYear (year + 1) with
  | false =>
    have hne : dayOfYear ≠ 365 := fun heq => by simp [hleap heq] at hyear
    simp only [Bool.false_eq_true, if_false]
    omega
  | true =>
    simp only [if_true]
    omega

/-- No month has more days than the calendar gives it. -/
theorem civilFromDays_day_le (days : ℕ) :
    (civilFromDays days).day ≤
      if (civilFromDays days).month = 2 then
        if isLeapYear (civilFromDays days).year then 29 else 28
      else if (civilFromDays days).month = 4 ∨ (civilFromDays days).month = 6 ∨
        (civilFromDays days).month = 9 ∨ (civilFromDays days).month = 11 then 30
      else 31 := by
  obtain ⟨hle, hleap⟩ := dayOfYear_le (Nat.mod_lt (days + 719468) (by decide))
    ((days + 719468) / 146097)
  rw [civilFromDays_eq]
  exact marchDate_day_le _ hle hleap

/-- Reading a date back. -/
theorem daysFromCivil_civilFromDays (days : ℕ) : daysFromCivil (civilFromDays days) = days := by
  have hdiv := Nat.div_add_mod (days + 719468) 146097
  obtain ⟨hyear, hlow, -⟩ := yearStart_le (Nat.mod_lt (days + 719468) (by decide))
  obtain ⟨hhigh, -⟩ := dayOfYear_le (Nat.mod_lt (days + 719468) (by decide)) 0
  have hmarch := march ((days + 719468) / 146097) _ hyear
  rw [civilFromDays_eq, daysFromCivil_marchDate _ (by omega)]
  omega

theorem civilFromDays_year {days : ℕ} (h : days < 2932897) : (civilFromDays days).year < 10000 := by
  have hdays := daysFromCivil_civilFromDays days
  obtain ⟨_, _, hday, _⟩ := civilFromDays_bounds days
  generalize civilFromDays days = date at *
  have hmonth : 0 ≤ daysBeforeMonth (isLeapYear date.year) date.month := by
    unfold daysBeforeMonth
    split <;> (try split) <;> omega
  simp only [daysFromCivil, dayFromYear] at hdays
  omega

/-- The text of valid fields is read back. -/
theorem parseIsoTime_fields {date : Date} {hour minute second millis : ℕ}
    (hyear : date.year < 10000) (hmonth : 1 ≤ date.month) (hmonth' : date.month ≤ 12)
    (hday : 1 ≤ date.day) (hday' : date.day ≤ 31) (hhour : hour < 24) (hminute : minute < 60)
    (hsecond : second < 60) (hmillis : millis < 1000) :
    parseIsoTime (pad 4 date.year ++ "-" ++ pad 2 date.month ++ "-" ++ pad 2 date.day ++ "T" ++
      pad 2 hour ++ ":" ++ pad 2 minute ++ ":" ++ pad 2 second ++ "." ++ pad 3 millis ++ "Z") =
      some ((((daysFromCivil date * 24 + hour) * 60 + minute) * 60 + second) * 1000 + millis) := by
  have hdash : "-".toList = ['-'] := rfl
  have hcolon : ":".toList = [':'] := rfl
  have hT : "T".toList = ['T'] := rfl
  have hpoint : ".".toList = ['.'] := rfl
  have hZ : "Z".toList = ['Z'] := rfl
  rw [parseIsoTime]
  simp only [String.toList_append, List.append_assoc, hdash, hcolon, hT, hpoint, hZ,
    List.cons_append, List.nil_append]
  rw [field_bind (by omega) (by omega), field_bind (by omega) (by omega),
    field_bind (by omega) (by omega), field_bind (by omega) (by omega),
    field_bind (by omega) (by omega), field_bind (by omega) (by omega),
    field_bind (by omega) (by omega)]
  simp [guard, hmonth, hmonth', hday, hday', hhour, hminute, hsecond]

/-- Up to the year 9999 a text is read back to the millisecond. -/
theorem parseIsoTime_isoTime {micros : ℕ} (h : micros < 253402300800000000) :
    parseIsoTime (isoTime micros) = some ((micros / 1000 : ℕ) : ℤ) := by
  have hyear := civilFromDays_year (show micros / 86400000000 < 2932897 by omega)
  obtain ⟨hmonth, hmonth', hday, hday'⟩ := civilFromDays_bounds (micros / 86400000000)
  have hback := daysFromCivil_civilFromDays (micros / 86400000000)
  rw [isoTime, parseIsoTime_fields hyear hmonth hmonth' hday hday' (by omega) (by omega) (by omega)
    (by omega), hback]
  congr 1
  omega

end RoundTrip

end OneBrc.Lib.CivilTime
