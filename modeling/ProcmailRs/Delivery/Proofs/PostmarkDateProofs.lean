import ProcmailRs.Delivery.PostmarkDate
import ProcmailRs.Delivery.Proofs.MboxProofs
import ProcmailRs.Lib.Gregorian
import ProcmailRs.Lib.Refinement
import ProcmailRs.Proofs.DecimalProofs

/-!
# The calendar of postmarks

Every day that a count of seconds can reach gets its date in the calendar, without an overflow on the
way; the line that is written for it is a postmark.
-/

namespace ProcmailRs

open Gregorian (Date InYear yearStart monthOf monthStart calendarMonth calendarYear)

/-! ### Computing the date -/

/-- Numbers far inside of the range. -/
theorem i64_eq {value : Int} (h : -1000000000000000 < value ∧ value < 1000000000000000) :
    i64 value = some value := if_pos ⟨by omega, by omega⟩

theorem u32?_natCast {value : Nat} (h : value ≤ 31) : u32? (value : Int) = some value := by
  unfold u32?
  rw [if_pos (by omega), Int.toNat_natCast]

theorem monthAndDay_eq {day month : Int} (h : 0 ≤ day) (h' : day ≤ 365) (hmonth : monthOf day = month) :
    monthAndDay day = some (calendarMonth month, day - monthStart month + 1) := by
  have hmonths : 0 ≤ month ∧ month ≤ 11 := by
    unfold monthOf at hmonth
    omega
  have hfive : i64 (5 * day) = some (5 * day) := i64_eq (by omega)
  have hscaled : i64 (5 * day + 2) = some (5 * day + 2) := i64_eq (by omega)
  have hquotient : (5 * day + 2).tdiv 153 = month := by
    rw [Int.tdiv_eq_ediv_of_nonneg (by omega)]
    exact hmonth
  have hdays : i64 (153 * month) = some (153 * month) := i64_eq (by omega)
  have hdays' : i64 (153 * month + 2) = some (153 * month + 2) := i64_eq (by omega)
  have hstart : (153 * month + 2).tdiv 5 = monthStart month := by
    rw [Int.tdiv_eq_ediv_of_nonneg (by omega)]
    rfl
  have hfirst : i64 (day - monthStart month) = some (day - monthStart month) := by
    unfold monthStart
    exact i64_eq (by omega)
  have hlast : i64 (day - monthStart month + 1) = some (day - monthStart month + 1) := by
    unfold monthStart
    exact i64_eq (by omega)
  have hcalendar : i64 (month + if month < 10 then 3 else -9) = some (calendarMonth month) := by
    rw [i64_eq (by split_ifs <;> omega)]
    unfold calendarMonth
    split_ifs <;> rfl
  unfold monthAndDay
  simp only [hfive, hscaled, hquotient, hdays, hdays', hstart, hfirst, hlast, hcalendar,
    Option.bind_eq_bind, Option.bind_some]
  rfl

theorem dateOfEra_eq {day year month : Int} (h : 0 ≤ day) (h' : day < 146097)
    (hyear : Gregorian.yearOfEra day = year) (hmonth : monthOf (day - yearStart year) = month) :
    dateOfEra day = some (year, calendarMonth month, day - yearStart year - monthStart month + 1) := by
  obtain ⟨hrange, hfirst, hlast⟩ := Gregorian.yearOfEra_spec h h'
  rw [hyear] at hrange hfirst hlast
  have hwhole : i64 (day - day / 1460) = some (day - day / 1460) := i64_eq (by omega)
  have hwhole' : i64 (day - day / 1460 + day / 36524) = some (day - day / 1460 + day / 36524) :=
    i64_eq (by omega)
  have hyears : i64 (day - day / 1460 + day / 36524 - day / 146096) =
      some (day - day / 1460 + day / 36524 - day / 146096) := i64_eq (by omega)
  have hquotient : (day - day / 1460 + day / 36524 - day / 146096).tdiv 365 = year := by
    rw [Int.tdiv_eq_ediv_of_nonneg (by omega)]
    exact hyear
  have hcommon : i64 (365 * year) = some (365 * year) := i64_eq (by omega)
  have hleap : i64 (365 * year + year / 4) = some (365 * year + year / 4) := i64_eq (by omega)
  have hstart : i64 (365 * year + year / 4 - year / 100) = some (yearStart year) := by
    unfold yearStart
    rw [i64_eq (by omega)]
    congr 1
    omega
  have hbound : day - yearStart year ≤ 365 := by
    have hlength := Gregorian.yearStart_succ year
    split_ifs at hlength <;> omega
  have hday : i64 (day - yearStart year) = some (day - yearStart year) := i64_eq (by omega)
  unfold dateOfEra
  simp only [Int.tdiv_eq_ediv_of_nonneg h, Int.tdiv_eq_ediv_of_nonneg hrange.1, hwhole, hwhole', hyears,
    hquotient, hcommon, hleap, hstart, hday, monthAndDay_eq (by omega : 0 ≤ day - yearStart year) hbound hmonth,
    Option.bind_eq_bind, Option.bind_some]
  rfl

/-- The first of March of the year 0 lies 719468 days before the epoch. -/
def dateOfUnixDay (day : Int) : Date := Gregorian.ofDay (day + 719468)

/-- The greatest day number that a `u64` count of seconds gives. -/
def maxDay : Nat := (2 ^ 64 - 1) / 86400

/-- What both computations do with an era. -/
theorem dateFromEra_eq {day : Int} (h : 0 ≤ day) (h' : day ≤ maxDay + 719468) :
    dateFromEra day (day / 146097) = some ((Gregorian.ofDay day).year, ((Gregorian.ofDay day).month : Int),
      ((Gregorian.ofDay day).day : Int)) := by
  have hmax : (maxDay : Int) = 213503982334601 := rfl
  obtain ⟨year, hyear⟩ : ∃ year, Gregorian.yearOfEra (day % 146097) = year := ⟨_, rfl⟩
  obtain ⟨month, hmonth⟩ : ∃ month, monthOf (day % 146097 - yearStart year) = month := ⟨_, rfl⟩
  have hfirst : 0 ≤ day % 146097 := by omega
  have hlast : day % 146097 < 146097 := by omega
  obtain ⟨hrange, -⟩ := Gregorian.yearOfEra_spec hfirst hlast
  have hyearOf : Gregorian.yearOf day = 400 * (day / 146097) + year := by
    unfold Gregorian.yearOf
    rw [hyear]
  have hsame : day - yearStart (Gregorian.yearOf day) = day % 146097 - yearStart year := by
    rw [hyearOf, Gregorian.yearStart_era]
    omega
  have hmonth' : monthOf (day - yearStart (Gregorian.yearOf day)) = month := by
    rw [hsame, hmonth]
  obtain ⟨hmonths, -⟩ := Gregorian.monthOf_spec (Gregorian.inYear_yearOf day) hmonth'
  obtain ⟨hdateYear, hdateMonth, hdateDay⟩ := Gregorian.dateIn_spec (Gregorian.inYear_yearOf day) hmonth'
  rw [hsame] at hdateDay
  rw [hyear] at hrange
  -- the operations around those of the era
  have hera : i64 (day / 146097 * 146097) = some (day / 146097 * 146097) := i64_eq (by omega)
  have hrest : i64 (day - day / 146097 * 146097) = some (day % 146097) := by
    rw [i64_eq (by omega)]
    congr 1
    omega
  have heras : i64 (day / 146097 * 400) = some (day / 146097 * 400) := i64_eq (by omega)
  have hsum : i64 (year + day / 146097 * 400) = some (Gregorian.yearOf day) := by
    rw [i64_eq (by omega), hyearOf]
    congr 1
    omega
  have hcalendar : i64 (Gregorian.yearOf day + if calendarMonth month ≤ 2 then 1 else 0) =
      some (calendarYear (Gregorian.yearOf day) month) := by
    rw [i64_eq (by split_ifs <;> omega)]
    unfold calendarYear calendarMonth
    congr 1
    split_ifs <;> omega
  unfold dateFromEra
  simp only [hera, hrest, dateOfEra_eq hfirst hlast hyear hmonth, heras, hsum, hcalendar,
    Option.bind_eq_bind, Option.bind_some]
  rw [← hdateYear, ← hdateMonth, ← hdateDay]
  rfl

/-- The components of a date, as the source returns them. -/
def components (date : Date) : Int × Nat × Nat := (date.year, date.month, date.day)

theorem day_le (date : Date) : date.day ≤ 31 := by
  have h := date.isDay.2
  unfold Gregorian.daysInMonth at h
  split at h
  · split_ifs at h <;> omega
  all_goals omega

theorem civilFromDays_of_era {days year : Int} {month day : Nat} (hdays : -719468 ≤ days ∧ days ≤ maxDay)
    (h : dateFromEra (days + 719468) ((days + 719468) / 146097) = some (year, (month : Int), (day : Int)))
    (hmonth : month ≤ 31) (hday : day ≤ 31) : civilFromDays days = some (year, month, day) := by
  have hmax : (maxDay : Int) = 213503982334601 := rfl
  have hshifted : i64 (days + 719468) = some (days + 719468) := i64_eq (by omega)
  have hera : (days + 719468).tdiv 146097 = (days + 719468) / 146097 :=
    Int.tdiv_eq_ediv_of_nonneg (by omega)
  unfold civilFromDays
  simp only [hshifted, hera, h, u32?_natCast hmonth, u32?_natCast hday, Option.bind_eq_bind,
    Option.bind_some]
  rfl

theorem civilFromDays_eq {days : Int} (h : 0 ≤ days) (h' : days ≤ maxDay) :
    civilFromDays days = some (components (dateOfUnixDay days)) := by
  have hmonth := (dateOfUnixDay days).isMonth
  exact civilFromDays_of_era ⟨by omega, h'⟩ (dateFromEra_eq (by omega) (by omega)) (by omega)
    (day_le (dateOfUnixDay days))

/-- The trace has the same date while the year fits into an `i32`. -/
theorem civilDateFromDays_eq {days : Int} (h : 0 ≤ days) (h' : days ≤ maxDay)
    (hyear : (dateOfUnixDay days).year < 2 ^ 31) :
    civilDateFromDays days = some (components (dateOfUnixDay days)) := by
  have hmax : (maxDay : Int) = 213503982334601 := rfl
  have hshifted : i64 (days + 719468) = some (days + 719468) := i64_eq (by omega)
  have hera : (days + 719468).tdiv 146097 = (days + 719468) / 146097 :=
    Int.tdiv_eq_ediv_of_nonneg (by omega)
  obtain ⟨hfirst, -⟩ := Gregorian.ofDay_year (days + 719468)
  have hmonth := (Gregorian.ofDay (days + 719468)).isMonth
  have hday := day_le (Gregorian.ofDay (days + 719468))
  have hyear' : (Gregorian.ofDay (days + 719468)).year.bmod (2 ^ 32) =
      (Gregorian.ofDay (days + 719468)).year :=
    Int.bmod_eq_of_le (by omega) (by exact hyear)
  unfold civilDateFromDays
  rw [hshifted, Option.bind_eq_bind, Option.bind_some, if_pos (by omega), hera]
  simp only [Option.bind_eq_bind, Option.bind_some]
  rw [dateFromEra_eq (by omega) (by omega)]
  simp only [Option.bind_some, hyear']
  rw [show ((Gregorian.ofDay (days + 719468)).month % 2 ^ 32 : Int).toNat =
      (Gregorian.ofDay (days + 719468)).month by omega,
    show ((Gregorian.ofDay (days + 719468)).day % 2 ^ 32 : Int).toNat =
      (Gregorian.ofDay (days + 719468)).day by omega]
  rfl

/-- The year of a day that can be reached, as a number of four to twelve digits. -/
theorem exists_year {days : Nat} (h : days ≤ maxDay) :
    ∃ year : Nat, (dateOfUnixDay days).year = year ∧ 1600 ≤ year ∧ year < 1000000000000 := by
  have hmax : maxDay = 213503982334601 := rfl
  obtain ⟨hfirst, hlast⟩ := Gregorian.ofDay_year ((days : Int) + 719468)
  have hnonneg : 0 ≤ (dateOfUnixDay days).year := by
    unfold dateOfUnixDay
    omega
  refine ⟨(dateOfUnixDay days).year.toNat, (Int.toNat_of_nonneg hnonneg).symm, ?_, ?_⟩
  · unfold dateOfUnixDay
    omega
  · unfold dateOfUnixDay
    omega

/-! ### Texts -/

/-- The bytes that a postmark may have before its line feed. -/
def Printable (text : Bytes) : Prop := ∀ b ∈ text, (Mbox.isAsciiGraphic b || b == SP) = true

instance (text : Bytes) : Decidable (Printable text) := List.decidableBAll _ text

namespace Printable

variable {a b : Bytes}

theorem append (ha : Printable a) (hb : Printable b) : Printable (a ++ b) := by
  intro byte hbyte
  rcases List.mem_append.mp hbyte with h | h
  · exact ha byte h
  · exact hb byte h

theorem cons {byte : UInt8} (h : (Mbox.isAsciiGraphic byte || byte == SP) = true) (ha : Printable a) :
    Printable (byte :: a) := by
  intro other hother
  rcases List.mem_cons.mp hother with rfl | hmem
  · exact h
  · exact ha other hmem

theorem padLeft {fill : UInt8} (h : (Mbox.isAsciiGraphic fill || fill == SP) = true) (width : Nat)
    (ha : Printable a) : Printable (padLeft fill width a) := by
  refine append (fun byte hbyte => ?_) ha
  rw [List.eq_of_mem_replicate hbyte]
  exact h

theorem decimal (n : Nat) : Printable (decimal n) := by
  intro byte hbyte
  have hdigit := List.all_eq_true.mp (decimal_all_isAsciiDigit n) byte hbyte
  simp only [isAsciiDigit, Bool.and_eq_true, decide_eq_true_eq, UInt8.le_iff_toNat_le] at hdigit
  simp only [Mbox.isAsciiGraphic, Bool.or_eq_true, Bool.and_eq_true, decide_eq_true_eq,
    UInt8.le_iff_toNat_le]
  simp at hdigit ⊢
  omega

end Printable

theorem length_padLeft (fill : UInt8) (width : Nat) (text : Bytes) :
    (padLeft fill width text).length = max width text.length := by
  unfold padLeft
  rw [List.length_append, List.length_replicate]
  omega

/-- A number that is not negative, with zeros up to a width. -/
theorem zeroPadded_natCast (width value : Nat) : zeroPadded width (value : Int) = padLeft 48 width (decimal value) := by
  unfold zeroPadded
  rw [if_neg (by omega), Int.toNat_natCast]

theorem printable_zeroPadded (width value : Nat) : Printable (zeroPadded width (value : Int)) := by
  rw [zeroPadded_natCast]
  exact (Printable.decimal value).padLeft (by decide) width

theorem length_zeroPadded {width value digits : Nat} (hdigits : 0 < digits) (hwidth : width ≤ digits)
    (h : value < 10 ^ digits) : (zeroPadded width (value : Int)).length ≤ digits := by
  have hlength := (length_decimal_le_iff hdigits).mpr h
  rw [zeroPadded_natCast, length_padLeft]
  omega

theorem printable_clockText (seconds : Nat) : Printable (clockText seconds) := by
  have hcolon : (Mbox.isAsciiGraphic COLON || COLON == SP) = true := rfl
  have hhour := printable_zeroPadded 2 (seconds / 3600)
  have hminute := printable_zeroPadded 2 (seconds % 3600 / 60)
  have hsecond := printable_zeroPadded 2 (seconds % 60)
  exact (hhour.append (hminute.cons hcolon)).append (hsecond.cons hcolon)

theorem length_clockText {seconds : Nat} (h : seconds < 86400) : (clockText seconds).length ≤ 8 := by
  have hhour : (zeroPadded 2 (seconds / 3600 : Nat)).length ≤ 2 :=
    length_zeroPadded (by decide) le_rfl (by omega)
  have hminute : (zeroPadded 2 (seconds % 3600 / 60 : Nat)).length ≤ 2 :=
    length_zeroPadded (by decide) le_rfl (by omega)
  have hsecond : (zeroPadded 2 (seconds % 60 : Nat)).length ≤ 2 :=
    length_zeroPadded (by decide) le_rfl (by omega)
  unfold clockText
  rw [List.length_append, List.length_append, List.length_cons, List.length_cons]
  omega

/-- Every name in the tables of days and months. -/
theorem name_spec {name : String} (h : name ∈ weekdays ++ months) :
    Printable (strBytes name) ∧ (strBytes name).length = 3 := by
  have hall : ∀ name ∈ weekdays ++ months, Printable (strBytes name) ∧ (strBytes name).length = 3 := by
    decide
  exact hall name h

/-! ### The postmark -/

namespace Mbox

theorem checkPostmark_line {text : Bytes} (h : Printable text) (hlength : text.length ≤ 506) :
    checkPostmark (fromPrefix ++ (text ++ [LF])) = .ok () := by
  have hlf : text.any isLF = false := by
    rw [List.any_eq_false]
    intro b hb hlf
    have hprintable := h b hb
    rw [show b = LF by simpa [isLF] using hlf] at hprintable
    cases hprintable
  have hdrop : (fromPrefix ++ (text ++ [LF])).dropLast = fromPrefix ++ text := by
    rw [← List.append_assoc, List.dropLast_concat]
  have hlast : (fromPrefix ++ (text ++ [LF])).getLast? = some LF := by
    rw [← List.append_assoc, List.getLast?_concat]
  have hprefix : fromPrefix.isPrefixOf (fromPrefix ++ (text ++ [LF])) = true :=
    List.isPrefixOf_iff_prefix.mpr (List.prefix_append _ _)
  have hfrom : Printable fromPrefix := by decide
  unfold checkPostmark
  rw [if_neg, if_neg, if_neg]
  · rw [hdrop, Bool.not_eq_true, Bool.not_eq_false', List.all_eq_true]
    exact hfrom.append h
  · rw [hdrop, hlast, hprefix, List.any_append, hlf]
    decide
  · rw [List.length_append, List.length_append]
    show ¬ 512 < 5 + (text.length + 1)
    omega

theorem new_of_check {bytes : Bytes} (h : checkPostmark bytes = .ok ()) :
    Postmark.new bytes = .ok ⟨bytes, h⟩ := by
  unfold Postmark.new
  split
  · rfl
  · rename_i heq
    rw [h] at heq
    cases heq

theorem dateText_spec {weekday month : String} {day seconds year : Nat}
    (hweekday : weekday ∈ weekdays) (hmonth : month ∈ months) (hday : day ≤ 31) (hseconds : seconds < 86400)
    (hyear : year < 10 ^ 12) :
    Printable (dateText weekday month day seconds (zeroPadded 4 year)) ∧
      (dateText weekday month day seconds (zeroPadded 4 year)).length ≤ 32 := by
  have hspace : (isAsciiGraphic SP || SP == SP) = true := rfl
  obtain ⟨hweekdayText, hweekdayLength⟩ := name_spec (List.mem_append_left months hweekday)
  obtain ⟨hmonthText, hmonthLength⟩ := name_spec (List.mem_append_right weekdays hmonth)
  have hdayText := (Printable.decimal day).padLeft hspace 2
  have hclockText := printable_clockText seconds
  have hyearText := printable_zeroPadded 4 year
  have hdayLength : (padLeft SP 2 (decimal day)).length ≤ 2 := by
    have hdigits : (decimal day).length ≤ 2 := (length_decimal_le_iff (by decide)).mpr (by omega)
    rw [length_padLeft]
    omega
  have hclockLength := length_clockText hseconds
  have hyearLength : (zeroPadded 4 (year : Int)).length ≤ 12 := length_zeroPadded (by decide) (by decide) hyear
  constructor
  · exact (((hweekdayText.append (hmonthText.cons hspace)).append (hdayText.cons hspace)).append
      (hclockText.cons hspace)).append (hyearText.cons hspace)
  · unfold dateText
    simp only [List.length_append, List.length_cons]
    omega

/-- Every time since the epoch has a postmark. -/
theorem generated_eq_ok (seconds : UInt64) :
    ∃ postmark weekday month, weekdays[seconds.toNat / 86400 % 7]? = some weekday ∧
      months[(dateOfUnixDay (seconds.toNat / 86400 : Nat)).month - 1]? = some month ∧
      Postmark.generated (some seconds) = .ok postmark ∧
      postmark.bytes = strBytes "From MAILER-DAEMON " ++ dateText weekday month
        (dateOfUnixDay (seconds.toNat / 86400 : Nat)).day (seconds.toNat % 86400)
        (zeroPadded 4 (dateOfUnixDay (seconds.toNat / 86400 : Nat)).year) ++ [LF] := by
  have hseconds := seconds.toNat_lt
  have hclock : seconds.toNat % 86400 < 86400 := by omega
  obtain ⟨days, hdays⟩ : ∃ days, seconds.toNat / 86400 = days := ⟨_, rfl⟩
  have hmax : maxDay = 213503982334601 := rfl
  rw [hdays]
  have hi64 : i64 (days : Int) = some (days : Int) := i64_eq (by omega)
  have hcivil := @civilFromDays_eq (days : Int) (by omega) (by omega)
  obtain ⟨year, hyear, -, hlast⟩ := exists_year (show days ≤ maxDay by omega)
  obtain ⟨date, hdate⟩ : ∃ date, dateOfUnixDay (days : Int) = date := ⟨_, rfl⟩
  rw [hdate] at hcivil hyear ⊢
  have hmonths := date.isMonth
  have hday := day_le date
  obtain ⟨weekday, hweekday⟩ : ∃ weekday, weekdays[days % 7]? = some weekday :=
    ⟨_, List.getElem?_eq_getElem (show days % 7 < 7 by omega)⟩
  obtain ⟨month, hmonth⟩ : ∃ month, months[date.month - 1]? = some month :=
    ⟨_, List.getElem?_eq_getElem (show date.month - 1 < 12 by omega)⟩
  obtain ⟨hprintable, hlength⟩ := dateText_spec (List.mem_of_getElem? hweekday)
    (List.mem_of_getElem? hmonth) hday hclock (show year < 10 ^ 12 by omega)
  have hvalid : checkPostmark (strBytes "From MAILER-DAEMON " ++ dateText weekday month date.day
      (seconds.toNat % 86400) (zeroPadded 4 date.year) ++ [LF]) = .ok () := by
    have hsender : Printable (strBytes "MAILER-DAEMON ") := by decide
    have hfrom : strBytes "From MAILER-DAEMON " = fromPrefix ++ strBytes "MAILER-DAEMON " := by decide
    rw [hfrom, hyear, List.append_assoc, List.append_assoc, ← List.append_assoc (strBytes _)]
    refine checkPostmark_line (hsender.append hprintable) ?_
    rw [List.length_append, show (strBytes "MAILER-DAEMON ").length = 14 by decide]
    omega
  refine ⟨⟨_, hvalid⟩, weekday, month, hweekday, hmonth, ?_, rfl⟩
  have hindex : ((days : Int) % 7).toNat = days % 7 := by omega
  unfold Postmark.generated
  simp -implicitDefEqProofs only [hdays, hi64, inRange, ok_bind, hcivil, components, hindex, hweekday,
    if_pos hmonths.1, hmonth]
  exact new_of_check hvalid

end Mbox

/-- The calendar of the postmarks: from the first of January 1970 day by day, without an overflow, and
the same as that of the trace; every time has a postmark. -/
theorem civilFromDays_correct :
    civilFromDays 0 = some (1970, 1, 1) ∧
      (∀ d : Nat, d ≤ maxDay → ∃ date : Date, civilFromDays d = some (components date) ∧
        (d < maxDay → civilFromDays (d + 1) = some (components date.next)) ∧
        (date.year < 2 ^ 31 → civilDateFromDays d = some (components date))) ∧
      ∀ seconds : UInt64, ∃ postmark, Mbox.Postmark.generated (some seconds) = .ok postmark ∧
        Mbox.Postmark.new postmark.bytes = .ok postmark := by
  refine ⟨rfl, fun d hd => ?_, fun seconds => ?_⟩
  · refine ⟨dateOfUnixDay d, civilFromDays_eq (by omega) (by omega), fun hlt => ?_, fun hyear => ?_⟩
    · rw [civilFromDays_eq (by omega) (by omega)]
      unfold dateOfUnixDay
      rw [← Gregorian.ofDay_succ, Int.add_right_comm]
    · exact civilDateFromDays_eq (by omega) (by omega) hyear
  · obtain ⟨postmark, -, -, -, -, hgenerated, -⟩ := Mbox.generated_eq_ok seconds
    exact ⟨postmark, hgenerated, Mbox.new_of_check postmark.valid⟩

/-- A leap day and the day behind it. -/
theorem civilFromDays_leap_day :
    ∃ date : Date, civilFromDays 11016 = some (components date) ∧ (date.month, date.day) = (2, 29) ∧
      civilFromDays 11017 = some (components date.next) := by
  obtain ⟨date, hdate, hnext, -⟩ := civilFromDays_correct.2.1 11016 (by decide)
  have hvalue : civilFromDays (11016 : Nat) = some (2000, 2, 29) := rfl
  rw [hvalue] at hdate
  have hcomponents : (2000, 2, 29) = components date := Option.some.inj hdate
  refine ⟨date, hdate ▸ hvalue, ?_, hnext (by decide)⟩
  exact (congrArg Prod.snd hcomponents).symm

/-! ### The session line -/

/-- A year of four digits or more needs no zeros. -/
theorem zeroPadded_year {year : Nat} (h : 1000 ≤ year) :
    zeroPadded 4 (year : Int) = zeroPadded 0 (year : Int) := by
  have hdigits : ¬ (decimal year).length ≤ 3 := by
    rw [length_decimal_le_iff (by decide)]
    omega
  rw [zeroPadded_natCast, zeroPadded_natCast]
  unfold padLeft
  rw [Nat.sub_eq_zero_of_le (by omega), Nat.zero_sub]

/-- The session line of the trace has the date of the postmark. -/
theorem formatSessionTimestamp_eq (seconds : UInt64)
    (hyear : (dateOfUnixDay (seconds.toNat / 86400 : Nat)).year < 2 ^ 31) :
    ∃ postmark text, Mbox.Postmark.generated (some seconds) = .ok postmark ∧
      formatSessionTimestamp (some seconds) = some text ∧
      postmark.bytes = strBytes "From MAILER-DAEMON " ++ text ++ [LF] := by
  obtain ⟨postmark, weekday, month, hweekday, hmonth, hgenerated, hbytes⟩ := Mbox.generated_eq_ok seconds
  have hseconds := seconds.toNat_lt
  obtain ⟨days, hdays⟩ : ∃ days, seconds.toNat / 86400 = days := ⟨_, rfl⟩
  have hmax : maxDay = 213503982334601 := rfl
  rw [hdays] at hyear hweekday hmonth hbytes
  have hcast : (days : Int).bmod (2 ^ 64) = days := Int.bmod_eq_of_le (by omega) (by omega)
  have hcivil := @civilDateFromDays_eq (days : Int) (by omega) (by omega) hyear
  obtain ⟨year, hvalue, hdigits, -⟩ := exists_year (show days ≤ maxDay by omega)
  obtain ⟨date, hdate⟩ : ∃ date, dateOfUnixDay (days : Int) = date := ⟨_, rfl⟩
  rw [hdate] at hcivil hvalue hmonth hbytes
  rw [hvalue, zeroPadded_year (by omega), ← hvalue] at hbytes
  refine ⟨postmark, _, hgenerated, ?_, hbytes⟩
  unfold formatSessionTimestamp
  simp -implicitDefEqProofs only [Option.map_some, Option.getD_some, hdays, hcast, hcivil, components,
    hweekday, if_pos date.isMonth.1, hmonth, Option.bind_eq_bind, Option.bind_some]
  rfl

end ProcmailRs
