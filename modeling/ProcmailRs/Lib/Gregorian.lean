import Mathlib.Tactic.IntervalCases
import Mathlib.Tactic.SplitIfs

/-!
# The proleptic Gregorian calendar

A `Date` is a year, a month and a day that the month has; `Date.next` is the day behind it. Years that
begin with March end with their leap day, so the days behind the first of March of the year 0 fall into
such years by `yearStart` and into their months by one linear formula. `ofDay` is the date of a day
number, by whole eras of 400 years, and it goes through the calendar day by day.
-/

namespace ProcmailRs.Gregorian

/-- The year has a day more. -/
def IsLeap (year : Int) : Prop := year % 4 = 0 ∧ (year % 100 ≠ 0 ∨ year % 400 = 0)

instance (year : Int) : Decidable (IsLeap year) := inferInstanceAs (Decidable (_ ∧ _))

/-- How many days a month has. -/
def daysInMonth (year : Int) : Nat → Nat
  | 2 => if IsLeap year then 29 else 28
  | 4 | 6 | 9 | 11 => 30
  | _ => 31

/-- A day of the calendar. -/
structure Date where
  year : Int
  month : Nat
  day : Nat
  isMonth : 1 ≤ month ∧ month ≤ 12
  isDay : 1 ≤ day ∧ day ≤ daysInMonth year month
  deriving DecidableEq

namespace Date

@[ext] theorem ext {a b : Date} (hyear : a.year = b.year) (hmonth : a.month = b.month)
    (hday : a.day = b.day) : a = b := by
  cases a
  cases b
  cases hyear
  cases hmonth
  cases hday
  rfl

theorem one_le_daysInMonth (year : Int) (month : Nat) : 1 ≤ daysInMonth year month := by
  unfold daysInMonth
  split
  · split_ifs <;> omega
  all_goals omega

/-- The day behind a date. -/
def next (date : Date) : Date :=
  if hday : date.day < daysInMonth date.year date.month then
    ⟨date.year, date.month, date.day + 1, date.isMonth, by omega⟩
  else if hmonth : date.month < 12 then
    ⟨date.year, date.month + 1, 1, by omega, le_rfl, one_le_daysInMonth _ _⟩
  else ⟨date.year + 1, 1, 1, by omega, le_rfl, one_le_daysInMonth _ _⟩

variable {date : Date}

theorem next_of_lt (h : date.day < daysInMonth date.year date.month) :
    date.next.year = date.year ∧ date.next.month = date.month ∧ date.next.day = date.day + 1 := by
  unfold next
  rw [dif_pos h]
  exact ⟨rfl, rfl, rfl⟩

theorem next_of_month (h : daysInMonth date.year date.month ≤ date.day) (hmonth : date.month < 12) :
    date.next.year = date.year ∧ date.next.month = date.month + 1 ∧ date.next.day = 1 := by
  unfold next
  rw [dif_neg (by omega), dif_pos hmonth]
  exact ⟨rfl, rfl, rfl⟩

theorem next_of_year (h : daysInMonth date.year date.month ≤ date.day) (hmonth : date.month = 12) :
    date.next.year = date.year + 1 ∧ date.next.month = 1 ∧ date.next.day = 1 := by
  unfold next
  rw [dif_neg (by omega), dif_neg (by omega)]
  exact ⟨rfl, rfl, rfl⟩

end Date

/-! ### Years that begin with March -/

/-- The number of the first of March of a year, counted from that of the year 0. -/
def yearStart (year : Int) : Int := 365 * year + year / 4 - year / 100 + year / 400

/-- The day lies between the first of March of the year and that of the next one. -/
def InYear (day year : Int) : Prop := yearStart year ≤ day ∧ day < yearStart (year + 1)

theorem yearStart_succ (year : Int) :
    yearStart (year + 1) = yearStart year + if IsLeap (year + 1) then 366 else 365 := by
  unfold yearStart IsLeap
  split_ifs <;> omega

theorem InYear.succ {day year : Int} (h : InYear day year) :
    InYear (day + 1) year ∨ (day + 1 = yearStart (year + 1) ∧ InYear (day + 1) (year + 1)) := by
  obtain ⟨hstart, hend⟩ := h
  have hlength := yearStart_succ (year + 1)
  by_cases hlast : day + 1 < yearStart (year + 1)
  · exact .inl ⟨by omega, hlast⟩
  · refine .inr ⟨by omega, by omega, ?_⟩
    rw [hlength]
    split_ifs <;> omega

theorem yearStart_mono {a b : Int} (h : a ≤ b) : yearStart a ≤ yearStart b := by
  unfold yearStart
  omega

theorem InYear.unique {day a b : Int} (ha : InYear day a) (hb : InYear day b) : a = b := by
  rcases lt_trichotomy a b with hlt | heq | hlt
  · have hmono := yearStart_mono (show a + 1 ≤ b by omega)
    have := ha.2
    have := hb.1
    omega
  · exact heq
  · have hmono := yearStart_mono (show b + 1 ≤ a by omega)
    have := hb.2
    have := ha.1
    omega

/-! ### Months -/

/-- The month of a day of a year that begins with March; March is 0. -/
def monthOf (dayOfYear : Int) : Int := (5 * dayOfYear + 2) / 153

/-- The first day of a month in a year that begins with March. -/
def monthStart (month : Int) : Int := (153 * month + 2) / 5

/-- The calendar year and month of a month of a year that begins with March. -/
def calendarYear (year month : Int) : Int := if month < 10 then year else year + 1

/-- The month of the calendar for a month counted from March. -/
def calendarMonth (month : Int) : Int := if month < 10 then month + 3 else month - 9

theorem daysInMonth_eq {year month : Int} (h : 0 ≤ month) (h' : month ≤ 11) :
    (daysInMonth (calendarYear year month) (calendarMonth month).toNat : Int) =
      if month = 11 then yearStart (year + 1) - yearStart year - monthStart 11
      else monthStart (month + 1) - monthStart month := by
  have hlength := yearStart_succ year
  by_cases hlast : month = 11
  · subst hlast
    rw [if_pos rfl, hlength]
    show ((if IsLeap (year + 1) then 29 else 28 : Nat) : Int) = _
    rw [show monthStart 11 = 337 from rfl]
    split_ifs <;> omega
  · rw [if_neg hlast]
    interval_cases month
    all_goals first | rfl | exact absurd rfl hlast

/-- The month of a day is the one whose days it lies among. -/
theorem monthOf_spec {year day month : Int} (h : InYear day year)
    (hmonth : monthOf (day - yearStart year) = month) :
    (0 ≤ month ∧ month ≤ 11) ∧ monthStart month ≤ day - yearStart year ∧
      day - yearStart year <
        monthStart month + daysInMonth (calendarYear year month) (calendarMonth month).toNat := by
  obtain ⟨hstart, hend⟩ := h
  unfold monthOf at hmonth
  have hlength := yearStart_succ year
  have hday : day - yearStart year ≤ 365 := by
    split_ifs at hlength <;> omega
  have hrange : 0 ≤ month ∧ month ≤ 11 := by omega
  refine ⟨hrange, ?_, ?_⟩
  · unfold monthStart
    omega
  · rw [daysInMonth_eq hrange.1 hrange.2]
    split_ifs with hlast
    · rw [hlast]
      omega
    · unfold monthStart
      omega

/-- The date of a day in a year that begins with March. -/
def dateIn (year day : Int) (h : InYear day year) : Date :=
  let month := monthOf (day - yearStart year)
  { year := calendarYear year month
    month := (calendarMonth month).toNat
    day := (day - yearStart year - monthStart month + 1).toNat
    isMonth := by
      obtain ⟨⟨hfirst, hlast⟩, -⟩ := @monthOf_spec year day month h rfl
      unfold calendarMonth
      split_ifs <;> omega
    isDay := by
      obtain ⟨-, hfirst, hlast⟩ := @monthOf_spec year day month h rfl
      omega }

theorem dateIn_spec {year day month : Int} (h : InYear day year)
    (hmonth : monthOf (day - yearStart year) = month) :
    (dateIn year day h).year = calendarYear year month ∧
      ((dateIn year day h).month : Int) = calendarMonth month ∧
      ((dateIn year day h).day : Int) = day - yearStart year - monthStart month + 1 := by
  obtain ⟨hrange, hfirst, -⟩ := monthOf_spec h hmonth
  subst hmonth
  refine ⟨rfl, Int.toNat_of_nonneg ?_, Int.toNat_of_nonneg (by omega)⟩
  unfold calendarMonth
  split_ifs <;> omega

/-- The length of the month that a day lies in. -/
theorem daysInMonth_dateIn {year day month : Int} (h : InYear day year)
    (hmonth : monthOf (day - yearStart year) = month) :
    (daysInMonth (dateIn year day h).year (dateIn year day h).month : Int) =
      if month = 11 then yearStart (year + 1) - yearStart year - monthStart 11
      else monthStart (month + 1) - monthStart month := by
  obtain ⟨hrange, -, -⟩ := monthOf_spec h hmonth
  subst hmonth
  exact daysInMonth_eq hrange.1 hrange.2

/-- The day behind a day of the same year. -/
theorem dateIn_succ {year day : Int} (h : InYear day year) (h' : InYear (day + 1) year) :
    dateIn year (day + 1) h' = (dateIn year day h).next := by
  obtain ⟨month, hmonth⟩ : ∃ month, monthOf (day - yearStart year) = month := ⟨_, rfl⟩
  obtain ⟨month', hmonth'⟩ : ∃ month', monthOf (day + 1 - yearStart year) = month' := ⟨_, rfl⟩
  obtain ⟨hrange', hfirst', -⟩ := monthOf_spec h' hmonth'
  obtain ⟨-, -, hlast⟩ := monthOf_spec h hmonth
  obtain ⟨hyear, hcalendar, hday⟩ := dateIn_spec h hmonth
  obtain ⟨hyear', hcalendar', hday'⟩ := dateIn_spec h' hmonth'
  have hdays := daysInMonth_dateIn h hmonth
  have hend := h'.2
  have hstep : month' = month ∨ month' = month + 1 := by
    unfold monthOf at hmonth hmonth'
    omega
  have hstart : monthStart 11 = 337 := rfl
  rcases hstep with rfl | rfl
  · -- another day of the month
    have hlt : (dateIn year day h).day < daysInMonth (dateIn year day h).year (dateIn year day h).month := by
      have hbound : day + 1 - yearStart year < monthStart (month' + 1) ∨ month' = 11 := by
        unfold monthOf at hmonth'
        unfold monthStart
        omega
      split_ifs at hdays with hfebruary
      · rw [hfebruary] at hday
        omega
      · omega
    obtain ⟨hnextYear, hnextMonth, hnextDay⟩ := Date.next_of_lt hlt
    apply Date.ext
    · rw [hnextYear, hyear, hyear']
    · rw [hnextMonth]
      omega
    · rw [hnextDay]
      omega
  · -- the first day of the next month
    rw [if_neg (by omega)] at hdays
    have hle : daysInMonth (dateIn year day h).year (dateIn year day h).month ≤ (dateIn year day h).day := by
      omega
    have hfirst : day + 1 - yearStart year = monthStart (month + 1) := by
      unfold monthOf at hmonth
      unfold monthStart at hfirst' ⊢
      omega
    unfold calendarYear at hyear hyear'
    unfold calendarMonth at hcalendar hcalendar'
    by_cases hdecember : month = 9
    · rw [hdecember] at hyear hyear' hcalendar hcalendar'
      norm_num at hyear hyear' hcalendar hcalendar'
      obtain ⟨hnextYear, hnextMonth, hnextDay⟩ := Date.next_of_year hle (by omega)
      apply Date.ext
      · rw [hnextYear, hyear, hyear']
      · rw [hnextMonth]
        omega
      · rw [hnextDay]
        omega
    · have hbefore : month + 1 < 10 ↔ month < 10 := by omega
      rw [if_congr hbefore rfl rfl] at hyear' hcalendar'
      obtain ⟨hnextYear, hnextMonth, hnextDay⟩ := Date.next_of_month hle (by
        split_ifs at hcalendar <;> omega)
      apply Date.ext
      · rw [hnextYear, hyear, hyear']
      · rw [hnextMonth]
        split_ifs at hcalendar hcalendar' <;> omega
      · rw [hnextDay]
        omega

/-- The first of March behind the last day of a year. -/
theorem dateIn_yearStart {year day : Int} (h : InYear day year) (hlast : day + 1 = yearStart (year + 1))
    (h' : InYear (day + 1) (year + 1)) : dateIn (year + 1) (day + 1) h' = (dateIn year day h).next := by
  have hlength := yearStart_succ year
  have hfebruary : monthOf (day - yearStart year) = 11 := by
    unfold monthOf
    split_ifs at hlength <;> omega
  have hmarch : monthOf (day + 1 - yearStart (year + 1)) = 0 := by
    rw [hlast, Int.sub_self]
    rfl
  have hdays := daysInMonth_dateIn h hfebruary
  obtain ⟨hyear, hmonth, hday⟩ := dateIn_spec h hfebruary
  obtain ⟨hyear', hmonth', hday'⟩ := dateIn_spec h' hmarch
  rw [if_pos rfl] at hdays
  rw [show calendarYear year 11 = year + 1 from rfl] at hyear
  rw [show calendarMonth 11 = 2 from rfl] at hmonth
  rw [show calendarYear (year + 1) 0 = year + 1 from rfl] at hyear'
  rw [show calendarMonth 0 = 3 from rfl] at hmonth'
  rw [show monthStart 0 = 0 from rfl] at hday'
  obtain ⟨hnextYear, hnextMonth, hnextDay⟩ :=
    @Date.next_of_month (dateIn year day h) (by omega) (by omega)
  apply Date.ext
  · rw [hnextYear, hyear, hyear']
  · rw [hnextMonth]
    omega
  · rw [hnextDay]
    omega

/-! ### Eras -/

/-- The year of a day among the 146097 days of 400 years. -/
def yearOfEra (dayOfEra : Int) : Int :=
  (dayOfEra - dayOfEra / 1460 + dayOfEra / 36524 - dayOfEra / 146096) / 365

/-- A day of an era but the last one, by whole centuries, groups of four years, years and days; a fourth
year may have one day more. -/
theorem exists_parts {day : Int} (h : 0 ≤ day) (h' : day < 146096) :
    ∃ century group year rest, day = 36524 * century + 1461 * group + 365 * year + rest ∧
      (0 ≤ century ∧ century ≤ 3) ∧ (0 ≤ group ∧ group ≤ 24) ∧ (0 ≤ year ∧ year ≤ 3) ∧
      (0 ≤ rest ∧ rest ≤ 365) ∧ (rest = 365 → year = 3) ∧ (group = 24 → year = 3 → rest < 365) := by
  by_cases hleap : day % 36524 % 1461 = 1460
  · refine ⟨day / 36524, day % 36524 / 1461, 3, 365, ?_⟩
    omega
  · refine ⟨day / 36524, day % 36524 / 1461, day % 36524 % 1461 / 365, day % 36524 % 1461 % 365, ?_⟩
    omega

theorem yearStart_parts {century group year : Int} (hcentury : 0 ≤ century ∧ century ≤ 3)
    (hgroup : 0 ≤ group ∧ group ≤ 24) (hyear : 0 ≤ year ∧ year ≤ 3) :
    yearStart (100 * century + 4 * group + year) = 36524 * century + 1461 * group + 365 * year := by
  have hfours : (100 * century + 4 * group + year) / 4 = 25 * century + group := by omega
  have hhundreds : (100 * century + 4 * group + year) / 100 = century := by omega
  have heras : (100 * century + 4 * group + year) / 400 = 0 := by omega
  unfold yearStart
  rw [hfours, hhundreds, heras]
  omega

theorem yearOfEra_spec {day : Int} (h : 0 ≤ day) (h' : day < 146097) :
    (0 ≤ yearOfEra day ∧ yearOfEra day ≤ 399) ∧ InYear day (yearOfEra day) := by
  by_cases hlast : day = 146096
  · subst hlast
    unfold yearOfEra InYear yearStart
    omega
  · obtain ⟨century, group, year, rest, hday, hcentury, hgroup, hyear, hrest, hleap, hcommon⟩ :=
      exists_parts h (by omega)
    have hcenturies : day / 36524 = century := by omega
    have hera : day / 146096 = 0 := by omega
    have hgroups : day / 1460 = 25 * century + group +
        if 1460 ≤ 24 * century + group + (365 * year + rest) then 1 else 0 := by
      split_ifs <;> omega
    have hvalue : yearOfEra day = 100 * century + 4 * group + year := by
      unfold yearOfEra
      rw [hcenturies, hera, hgroups]
      split_ifs <;> omega
    rw [hvalue]
    -- The quotients are not needed any more.
    clear hvalue hcenturies hera hgroups
    have hstart := yearStart_parts hcentury hgroup hyear
    refine ⟨by omega, by omega, ?_⟩
    by_cases hinside : year < 3
    · have hnext := @yearStart_parts century group (year + 1) hcentury hgroup (by omega)
      rw [← Int.add_assoc] at hnext
      omega
    by_cases hcentury' : group < 24
    · have hnext := @yearStart_parts century (group + 1) 0 hcentury (by omega) (by omega)
      rw [show 100 * century + 4 * group + year + 1 = 100 * century + 4 * (group + 1) + 0 by omega]
      omega
    by_cases hera' : century < 3
    · have hnext := @yearStart_parts (century + 1) 0 0 (by omega) (by omega) (by omega)
      rw [show 100 * century + 4 * group + year + 1 = 100 * (century + 1) + 4 * 0 + 0 by omega]
      omega
    · rw [show 100 * century + 4 * group + year + 1 = 400 by omega]
      show day < 146097
      exact h'

theorem yearStart_era (era year : Int) : yearStart (400 * era + year) = 146097 * era + yearStart year := by
  unfold yearStart
  omega

theorem inYear_era {era day year : Int} :
    InYear (146097 * era + day) (400 * era + year) ↔ InYear day year := by
  unfold InYear
  rw [Int.add_assoc, yearStart_era, yearStart_era]
  omega

/-- The year that begins with March in which a day lies. -/
def yearOf (day : Int) : Int := 400 * (day / 146097) + yearOfEra (day % 146097)

theorem inYear_yearOf (day : Int) : InYear day (yearOf day) := by
  obtain ⟨-, hspec⟩ := @yearOfEra_spec (day % 146097) (by omega) (by omega)
  have hday : 146097 * (day / 146097) + day % 146097 = day := by omega
  have hera := (@inYear_era (day / 146097) (day % 146097) _).mpr hspec
  rwa [hday] at hera

/-- The date of a day, counted from the first of March of the year 0. -/
def ofDay (day : Int) : Date := dateIn (yearOf day) day (inYear_yearOf day)

/-- The year of a day, up to the months before March. -/
theorem ofDay_year (day : Int) :
    400 * (day / 146097) ≤ (ofDay day).year ∧ (ofDay day).year ≤ 400 * (day / 146097) + 400 := by
  obtain ⟨hrange, -⟩ := @yearOfEra_spec (day % 146097) (by omega) (by omega)
  have hyear : (ofDay day).year = calendarYear (yearOf day) (monthOf (day - yearStart (yearOf day))) := rfl
  rw [hyear]
  unfold calendarYear yearOf
  split_ifs <;> omega

/-- The days go through the calendar one by one. -/
theorem ofDay_succ (day : Int) : ofDay (day + 1) = (ofDay day).next := by
  have h := inYear_yearOf day
  have h' := inYear_yearOf (day + 1)
  unfold ofDay
  rcases h.succ with hsame | ⟨hlast, hnew⟩
  · have heq : yearOf (day + 1) = yearOf day := h'.unique hsame
    rw [← dateIn_succ h hsame]
    congr 1
  · have heq : yearOf (day + 1) = yearOf day + 1 := h'.unique hnew
    rw [← dateIn_yearStart h hlast hnew]
    congr 1

end ProcmailRs.Gregorian
