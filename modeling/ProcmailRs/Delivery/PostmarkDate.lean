import ProcmailRs.Delivery.Mbox
import ProcmailRs.Runtime

/-!
# The date of a postmark

`Postmark::generated` writes the time of a delivery without locale or libc: the day of the calendar is
computed from the number of days since the Unix epoch, by eras of 400 years that begin with March. The
session line of the trace has the same computation, up to how an era is found and how a year is stored.
-/

namespace ProcmailRs

/-! ### Numbers of the machine -/

/-- A number between `i64::MIN` and `i64::MAX`. A checked operation has no result outside of this range,
and one that is not checked overflows: both have no value here. -/
def i64 (value : Int) : Option Int :=
  if -9223372036854775808 ≤ value ∧ value ≤ 9223372036854775807 then some value else none

/-- `u32::try_from`: a number up to `u32::MAX`. -/
def u32? (value : Int) : Option Nat :=
  if 0 ≤ value ∧ value ≤ 4294967295 then some value.toNat else none

/-! ### Days -/

/-- The month and its day, for a day of a year that begins with March. The operations are those of
`i64`, with truncating divisions. -/
def monthAndDay (dayOfYear : Int) : Option (Int × Int) := do
  let monthPrime := (← i64 ((← i64 (5 * dayOfYear)) + 2)).tdiv 153
  let daysOfMonths := (← i64 ((← i64 (153 * monthPrime)) + 2)).tdiv 5
  let day ← i64 ((← i64 (dayOfYear - daysOfMonths)) + 1)
  let month ← i64 (monthPrime + if monthPrime < 10 then 3 else -9)
  return (month, day)

/-- The year of the era, the month and the day of a day of an era. -/
def dateOfEra (dayOfEra : Int) : Option (Int × Int × Int) := do
  let wholeDays ← i64 (dayOfEra - dayOfEra.tdiv 1460)
  let wholeDays ← i64 (wholeDays + dayOfEra.tdiv 36524)
  let yearOfEra := (← i64 (wholeDays - dayOfEra.tdiv 146096)).tdiv 365
  let daysBefore ← i64 ((← i64 (365 * yearOfEra)) + yearOfEra.tdiv 4)
  let dayOfYear ← i64 (dayOfEra - (← i64 (daysBefore - yearOfEra.tdiv 100)))
  let (month, day) ← monthAndDay dayOfYear
  return (yearOfEra, month, day)

/-- The year, the month and the day of a day number in an era. -/
def dateFromEra (shifted era : Int) : Option (Int × Int × Int) := do
  let dayOfEra ← i64 (shifted - (← i64 (era * 146097)))
  let (yearOfEra, month, day) ← dateOfEra dayOfEra
  let year ← i64 (yearOfEra + (← i64 (era * 400)))
  let year ← i64 (year + if month ≤ 2 then 1 else 0)
  return (year, month, day)

/-- The date of a Unix day number that is not negative, in the proleptic Gregorian calendar. -/
def civilFromDays (daysSinceEpoch : Int) : Option (Int × Nat × Nat) := do
  let shifted ← i64 (daysSinceEpoch + 719468)
  let (year, month, day) ← dateFromEra shifted (shifted.tdiv 146097)
  return (year, ← u32? month, ← u32? day)

/-- `civil_date_from_days` of the trace. It rounds the era of a negative number down, and its casts keep
the low 32 bits. -/
def civilDateFromDays (days : Int) : Option (Int × Nat × Nat) := do
  let shifted ← i64 (days + 719468)
  let era ← if 0 ≤ shifted then some (shifted.tdiv 146097)
    else (i64 (shifted - 146096)).map fun shifted => shifted.tdiv 146097
  let (year, month, day) ← dateFromEra shifted era
  return (year.bmod (2 ^ 32), (month % 2 ^ 32).toNat, (day % 2 ^ 32).toNat)

/-! ### Texts -/

/-- The days of the week from the day of the epoch. -/
def weekdays : List String := ["Thu", "Fri", "Sat", "Sun", "Mon", "Tue", "Wed"]

/-- The months of the year. -/
def months : List String :=
  ["Jan", "Feb", "Mar", "Apr", "May", "Jun", "Jul", "Aug", "Sep", "Oct", "Nov", "Dec"]

/-- A text with `fill` before it up to a width. -/
def padLeft (fill : UInt8) (width : Nat) (text : Bytes) : Bytes :=
  List.replicate (width - text.length) fill ++ text

/-- `format!("{:0width$}")`, which puts the sign before the zeros. -/
def zeroPadded (width : Nat) (value : Int) : Bytes :=
  if value < 0 then 45 :: padLeft 48 (width - 1) (decimal value.natAbs)
  else padLeft 48 width (decimal value.toNat)

/-- `hour:minute:second` of a second of the day. -/
def clockText (secondsInDay : Nat) : Bytes :=
  zeroPadded 2 (secondsInDay / 3600 : Nat) ++ COLON :: zeroPadded 2 (secondsInDay % 3600 / 60 : Nat) ++
    COLON :: zeroPadded 2 (secondsInDay % 60 : Nat)

/-- The weekday, the month, the day, the time and the year, with spaces between them. -/
def dateText (weekday month : String) (day secondsInDay : Nat) (year : Bytes) : Bytes :=
  strBytes weekday ++ SP :: strBytes month ++ SP :: padLeft SP 2 (decimal day) ++
    SP :: clockText secondsInDay ++ SP :: year

namespace Mbox

/-- `Option::ok_or(TimeOutOfRange)`. -/
def inRange {α : Type} : Option α → Except PostmarkError α
  | some value => .ok value
  | none => .error .TimeOutOfRange

/-- The postmark of a time, given by the whole seconds since the Unix epoch; there are none for a time
before it. -/
def Postmark.generated (sinceEpoch : Option UInt64) : Except PostmarkError Postmark := do
  let seconds ← match sinceEpoch with
    | some seconds => .ok seconds.toNat
    | none => .error .TimeBeforeEpoch
  let days ← inRange (i64 (seconds / 86400 : Nat))
  let (year, month, day) ← inRange (civilFromDays days)
  let weekday ← inRange weekdays[(days % 7).toNat]?
  let month ← inRange (if 1 ≤ month then months[month - 1]? else none)
  Postmark.new (strBytes "From MAILER-DAEMON " ++
    dateText weekday month day (seconds % 86400) (zeroPadded 4 year) ++ [LF])

end Mbox

/-- `format_session_timestamp` of the trace; a time before the epoch counts as the epoch. An index
outside of its table, or an overflow, has no text. -/
def formatSessionTimestamp (sinceEpoch : Option UInt64) : Option Bytes := do
  let seconds := (sinceEpoch.map UInt64.toNat).getD 0
  let days := seconds / 86400
  let (year, month, day) ← civilDateFromDays (((days : Nat) : Int).bmod (2 ^ 64))
  let weekday ← weekdays[days % 7]?
  let month ← if 1 ≤ month then months[month - 1]? else none
  return dateText weekday month day (seconds % 86400) (zeroPadded 0 year)

end ProcmailRs
