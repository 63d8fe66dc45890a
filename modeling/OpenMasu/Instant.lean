import Mathlib.Data.Rat.Floor
import OpenMasu.Canonical

/-!
# Timestamps and instants

Timestamps arrive as texts of the fixed form `YYYY-MM-DDTHH:mm:ss.sssZ`.  The
form does not make them valid: `2026-02-30` and `24:00` have it too.  Reading
one as an instant (`time`) therefore may fail, and the failure carries the
name of the field.

* `Timestamp` — a text of the fixed form; `Timestamp.text` writes it;
* `time` — the instant in milliseconds, or `Failure.timestampInvalid`;
* `isoText` — `toISOString`, with the expanded years of six digits;
* `dateAt` — the calendar date in a time zone, as the first ten characters
  of that text.
-/

namespace OpenMasu

/-- What the evaluator throws. -/
inductive Failure where
  | timestampInvalid (field value : String)
  | error (message : String)
  | rangeError
  deriving DecidableEq

instance neZero_ten : NeZero 10 := ⟨by decide⟩

instance neZero_hundred : NeZero 100 := ⟨by decide⟩

instance neZero_thousand : NeZero 1000 := ⟨by decide⟩

instance neZero_myriad : NeZero 10000 := ⟨by decide⟩

/-- A text of the form `YYYY-MM-DDTHH:mm:ss.sssZ`. -/
structure Timestamp where
  year : Fin 10000
  month : Fin 100
  day : Fin 100
  hour : Fin 100
  minute : Fin 100
  second : Fin 100
  millisecond : Fin 1000
  deriving DecidableEq

/-- The date and time of a fixed-width text behind its year. -/
def clockChars (month day hour minute second millisecond : Nat) : List Char :=
  '-' :: digits 2 month ++ '-' :: digits 2 day ++ 'T' :: digits 2 hour ++
    ':' :: digits 2 minute ++ ':' :: digits 2 second ++ '.' :: digits 3 millisecond ++ ['Z']

/-- The timestamp's text. -/
def Timestamp.text (t : Timestamp) : String :=
  String.ofList (digits 4 t.year ++
    clockChars t.month t.day t.hour t.minute t.second t.millisecond)

/-- Timestamps with the same text are the same. -/
theorem Timestamp.text_injective : Function.Injective Timestamp.text := by
  rintro ⟨year, month, day, hour, minute, second, millisecond⟩
    ⟨year', month', day', hour', minute', second', millisecond'⟩ h
  have hchars := String.ofList_injective h
  simp only [clockChars, List.cons_append, List.append_assoc] at hchars
  obtain ⟨hyear, hchars⟩ := digits_append_inj year.isLt year'.isLt hchars
  obtain ⟨hmonth, hchars⟩ := digits_append_inj month.isLt month'.isLt (List.cons.inj hchars).2
  obtain ⟨hday, hchars⟩ := digits_append_inj day.isLt day'.isLt (List.cons.inj hchars).2
  obtain ⟨hhour, hchars⟩ := digits_append_inj hour.isLt hour'.isLt (List.cons.inj hchars).2
  obtain ⟨hminute, hchars⟩ := digits_append_inj minute.isLt minute'.isLt (List.cons.inj hchars).2
  obtain ⟨hsecond, hchars⟩ := digits_append_inj second.isLt second'.isLt (List.cons.inj hchars).2
  obtain ⟨hms, -⟩ := digits_append_inj millisecond.isLt millisecond'.isLt (List.cons.inj hchars).2
  rw [Fin.ext hyear, Fin.ext hmonth, Fin.ext hday, Fin.ext hhour, Fin.ext hminute,
    Fin.ext hsecond, Fin.ext hms]

instance : Encode Timestamp := ⟨fun t => .str t.text⟩

/-- Milliseconds of a day. -/
def dayMs : Int := 86400000

/-- Days of a month in the proleptic Gregorian calendar. -/
def daysInMonth (year month : Nat) : Nat :=
  if month = 2 then
    if year % 4 = 0 ∧ (year % 100 ≠ 0 ∨ year % 400 = 0) then 29 else 28
  else if month = 4 ∨ month = 6 ∨ month = 9 ∨ month = 11 then 30 else 31

/-- Days from 1970-01-01 to a calendar date. -/
def daysFromCivil (year month day : Int) : Int :=
  let y := if month ≤ 2 then year - 1 else year
  let era := y / 400
  let yearOfEra := y - era * 400
  let shifted := if month > 2 then month - 3 else month + 9
  let dayOfYear := (153 * shifted + 2) / 5 + day - 1
  let dayOfEra := yearOfEra * 365 + yearOfEra / 4 - yearOfEra / 100 + dayOfYear
  era * 146097 + dayOfEra - 719468

/-- A calendar date; an expanded year is cut off behind the month, where the
ten characters of `slice(0, 10)` end. -/
structure CalendarDate where
  year : Int
  month : Nat
  day : Nat
  deriving DecidableEq

/-- The calendar date a number of days after 1970-01-01. -/
def civilFromDays (days : Int) : Int × Nat × Nat :=
  let z := days + 719468
  let era := z / 146097
  let dayOfEra := z - era * 146097
  let yearOfEra := (dayOfEra - dayOfEra / 1460 + dayOfEra / 36524 - dayOfEra / 146096) / 365
  let dayOfYear := dayOfEra - (365 * yearOfEra + yearOfEra / 4 - yearOfEra / 100)
  let shifted := (5 * dayOfYear + 2) / 153
  let day := dayOfYear - (153 * shifted + 2) / 5 + 1
  let month := if shifted < 10 then shifted + 3 else shifted - 9
  (yearOfEra + era * 400 + (if month ≤ 2 then 1 else 0), month.toNat, day.toNat)

/-- Years that a text writes with four digits. -/
def fourDigitYear (year : Int) : Bool := 0 ≤ year && year ≤ 9999

/-- A year as `toISOString` writes it. -/
def yearChars (year : Int) : List Char :=
  if fourDigitYear year then digits 4 year.toNat
  else (if year < 0 then '-' else '+') :: digits 6 year.natAbs

/-- The characters of a calendar date. -/
def CalendarDate.text (d : CalendarDate) : String :=
  String.ofList (if fourDigitYear d.year then
    yearChars d.year ++ '-' :: digits 2 d.month ++ '-' :: digits 2 d.day
  else yearChars d.year ++ '-' :: digits 2 d.month)

instance : Encode CalendarDate := ⟨fun d => .str d.text⟩

/-- The calendar date `slice(0, 10)` leaves of an instant's text. -/
def dateOf (ms : Int) : CalendarDate :=
  let (year, month, day) := civilFromDays (ms / dayMs)
  ⟨year, month, if fourDigitYear year then day else 0⟩

/-- The first ten characters of a timestamp's own text. -/
def Timestamp.date (t : Timestamp) : CalendarDate := ⟨t.year.val, t.month, t.day⟩

/-- `toISOString`: the text of an instant, or a range error. -/
def isoText (ms : Int) : Except Failure String :=
  if ms.natAbs ≤ 8640000000000000 then
    let (year, month, day) := civilFromDays (ms / dayMs)
    let clock := (ms % dayMs).toNat
    .ok (String.ofList (yearChars year ++ clockChars month day (clock / 3600000)
      (clock / 60000 % 60) (clock / 1000 % 60) (clock % 1000)))
  else .error .rangeError

/-- The calendar admits the timestamp: parsing it and writing it again gives
the same text. -/
def Timestamp.isCalendar (t : Timestamp) : Bool :=
  1 ≤ t.month.val && t.month.val ≤ 12 && 1 ≤ t.day.val &&
    t.day.val ≤ daysInMonth t.year t.month &&
    t.hour.val < 24 && t.minute.val < 60 && t.second.val < 60

/-- The milliseconds from 1970-01-01 to a timestamp the calendar admits. -/
def Timestamp.ms (t : Timestamp) : Int :=
  daysFromCivil t.year t.month t.day * dayMs + t.hour * 3600000 + t.minute * 60000 +
    t.second * 1000 + t.millisecond

/-- `time`: the instant of a timestamp field. -/
def time (value : Timestamp) (field : String) : Except Failure Int :=
  if value.isCalendar then .ok value.ms
  else .error (.timestampInvalid field value.text)

/-- The time zones metrics aggregate in. -/
inductive TimeZone where
  | utc
  | tokyo
  deriving DecidableEq

def TimeZone.text : TimeZone → String
  | utc => "UTC"
  | tokyo => "Asia/Tokyo"

/-- Milliseconds a zone is ahead of UTC. -/
def TimeZone.offset : TimeZone → Int
  | utc => 0
  | tokyo => 9 * 3600000

/-- `dateAt`: the calendar date of a timestamp field in a time zone. -/
def dateAt (value : Timestamp) (zone : TimeZone) (field : String) :
    Except Failure CalendarDate := do
  return dateOf ((← time value field) + zone.offset)

/-- `time` succeeds exactly on the timestamps the calendar admits. -/
theorem time_eq_ok {t : Timestamp} {field : String} {ms : Int} :
    time t field = .ok ms ↔ t.isCalendar = true ∧ ms = t.ms := by
  unfold time
  by_cases h : t.isCalendar = true
  · simp [h, eq_comm]
  · simp [h]

theorem time_of_isCalendar {t : Timestamp} (h : t.isCalendar = true) (field : String) :
    time t field = .ok t.ms := by simp [time, h]

example : (⟨2026, 2, 30, 0, 0, 0, 0⟩ : Timestamp).isCalendar = false := by decide

example : isoText (⟨2024, 2, 29, 23, 59, 58, 7⟩ : Timestamp).ms
    = .ok "2024-02-29T23:59:58.007Z" := by decide

end OpenMasu
