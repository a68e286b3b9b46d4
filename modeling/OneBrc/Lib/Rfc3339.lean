import OneBrc.Lib.CivilTime

/-! Timestamps with a date, a time of day and an offset, as RFC 3339 writes them. -/
namespace OneBrc.Lib.Rfc3339
open CivilTime

def daysIn (year month : ℕ) : ℕ :=
  if month = 2 then if isLeapYear year then 29 else 28
  else if month = 4 ∨ month = 6 ∨ month = 9 ∨ month = 11 then 30
  else 31

def isDate (date : Date) : Bool :=
  1 ≤ date.month && date.month ≤ 12 && 1 ≤ date.day && date.day ≤ daysIn date.year date.month

/-- A number of a fixed width at the head of a text. -/
def number (width : ℕ) (cs : List Char) : Option (ℕ × List Char) :=
  if (cs.take width).length = width ∧ Digits.allDigits (cs.take width) = true
  then some (Digits.value (cs.take width), cs.drop width)
  else none

/-- A date up to the letter after it. -/
def date (cs : List Char) : Option (Date × List Char) := do
  let (year, cs) ← field 4 '-' cs
  let (month, cs) ← field 2 '-' cs
  let (day, cs) ← field 2 'T' cs
  guard (isDate ⟨year, month, day⟩)
  return (⟨year, month, day⟩, cs)

/-- The microseconds of a fraction that one of the separators starts, if there is one. -/
def fraction (separators : List Char) (cs : List Char) : ℕ × List Char :=
  match cs with
  | c :: rest =>
      let digits := rest.takeWhile Digits.isDigit
      if c ∈ separators ∧ digits ≠ [] then
        (Digits.value ((digits ++ List.replicate 6 '0').take 6), rest.dropWhile Digits.isDigit)
      else (0, cs)
  | [] => (0, cs)

/-- Minutes east of UTC. -/
def zone : List Char → Option (ℤ × List Char)
  | 'Z' :: cs => some (0, cs)
  | '+' :: cs => do
      let (hours, cs) ← field 2 ':' cs
      let (minutes, cs) ← number 2 cs
      guard (hours ≤ 24 ∧ minutes ≤ 60)
      return (hours * 60 + minutes, cs)
  | '-' :: cs => do
      let (hours, cs) ← field 2 ':' cs
      let (minutes, cs) ← number 2 cs
      guard (hours ≤ 24 ∧ minutes ≤ 60)
      return (-(hours * 60 + minutes), cs)
  | _ => none

/-- Microseconds after 1970 of a text. The hour may have one digit, and the fraction any number of
them after a point or a comma. -/
def parse (text : String) : Option ℤ := do
  let (date, cs) ← date text.toList
  let (hour, cs) ← field 2 ':' cs <|> field 1 ':' cs
  let (minute, cs) ← field 2 ':' cs
  let (second, cs) ← number 2 cs
  guard (hour < 24 ∧ minute < 60 ∧ second < 60)
  let (micros, cs) := fraction ['.', ','] cs
  let (offset, cs) ← zone cs
  guard (cs = [])
  return ((((daysFromCivil date * 24 + hour) * 60 + minute - offset) * 60 + second) * 1000000 +
    micros)

/-- The layout `2006-01-02T15:04:05Z` of a time in seconds after 1970. -/
def format (seconds : ℕ) : String :=
  let date := civilFromDays (seconds / 86400)
  pad 4 date.year ++ "-" ++ pad 2 date.month ++ "-" ++ pad 2 date.day ++ "T" ++
    pad 2 (seconds / 3600 % 24) ++ ":" ++ pad 2 (seconds / 60 % 60) ++ ":" ++
    pad 2 (seconds % 60) ++ "Z"

example : parse "2026-01-01T9:30:00,25+09:00" = parse "2026-01-01T00:30:00.250Z" := by decide

theorem isDate_civilFromDays (days : ℕ) : isDate (civilFromDays days) = true := by
  obtain ⟨hmonth, hmonth', hday, -⟩ := civilFromDays_bounds days
  have hlast := civilFromDays_day_le days
  simp only [isDate, daysIn, Bool.and_eq_true, decide_eq_true_eq]
  exact ⟨⟨⟨hmonth, hmonth'⟩, hday⟩, decide_eq_true hlast⟩

theorem number_pad {width n : ℕ} (h : n < 10 ^ width) (hw : 0 < width) (cs : List Char) :
    number width ((pad width n).toList ++ cs) = some (n, cs) := by
  have hlength := length_pad h hw
  rw [number, List.take_left' hlength, List.drop_left' hlength, if_pos, value_pad]
  exact ⟨hlength, allDigits_pad width n⟩

theorem date_append {civil : Date} (hdate : isDate civil = true) (hyear : civil.year < 10000)
    (hmonth : civil.month < 100) (hday : civil.day < 100) (cs : List Char) :
    date ((pad 4 civil.year).toList ++ '-' :: ((pad 2 civil.month).toList ++
      '-' :: ((pad 2 civil.day).toList ++ 'T' :: cs))) = some (civil, cs) := by
  rw [date, field_bind (by omega) (by omega)]
  dsimp only
  rw [field_bind (by omega) (by omega)]
  dsimp only
  rw [field_bind (by omega) (by omega)]
  simp [guard, hdate]

/-- The text of valid fields is read. -/
theorem parse_fields {civil : Date} {hour minute second : ℕ} (hdate : isDate civil = true)
    (hyear : civil.year < 10000) (hmonth : civil.month < 100) (hday : civil.day < 100)
    (hhour : hour < 24) (hminute : minute < 60) (hsecond : second < 60) :
    (parse (pad 4 civil.year ++ "-" ++ pad 2 civil.month ++ "-" ++ pad 2 civil.day ++ "T" ++
      pad 2 hour ++ ":" ++ pad 2 minute ++ ":" ++ pad 2 second ++ "Z")).isSome := by
  have hdash : "-".toList = ['-'] := rfl
  have hcolon : ":".toList = [':'] := rfl
  have hT : "T".toList = ['T'] := rfl
  have hZ : "Z".toList = ['Z'] := rfl
  rw [parse]
  simp only [String.toList_append, List.append_assoc, hdash, hcolon, hT, hZ,
    List.cons_append, List.nil_append]
  rw [date_append hdate hyear hmonth hday]
  simp only [bind, Option.bind]
  rw [field_pad (by omega) (by omega)]
  simp only [Option.orElse_eq_orElse, Option.orElse_some]
  rw [field_pad (by omega) (by omega)]
  dsimp only
  rw [number_pad (by omega) (by omega)]
  simp [guard, hhour, hminute, hsecond, fraction, zone]

/-- Up to the year 9999 the text of a time is read. -/
theorem parse_format {seconds : ℕ} (h : seconds < 253402300800) :
    (parse (format seconds)).isSome := by
  have hyear := civilFromDays_year (show seconds / 86400 < 2932897 by omega)
  obtain ⟨-, hmonth, -, hday⟩ := civilFromDays_bounds (seconds / 86400)
  exact parse_fields (isDate_civilFromDays (seconds / 86400)) hyear (by omega) (by omega)
    (Nat.mod_lt _ (by decide)) (Nat.mod_lt _ (by decide)) (Nat.mod_lt _ (by decide))

end OneBrc.Lib.Rfc3339
