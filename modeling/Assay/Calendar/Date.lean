/-!
# Calendar days

The days of the Gregorian calendar from year 1 to year 9999, extended backwards. A `Date` is a
real day by construction. Days are numbered from the first (`Date.ordinal`), which gives
weekdays and the week dates of `Date.ofWeek?`.
-/

namespace Assay

/-- A leap year has a 29 February. -/
def isLeapYear (year : Nat) : Bool :=
  year % 4 == 0 && (year % 100 != 0 || year % 400 == 0)

/-- The length of a month, months counted from 1. -/
def daysInMonth (year month : Nat) : Nat :=
  match month with
  | 2 => if isLeapYear year then 29 else 28
  | 4 | 6 | 9 | 11 => 30
  | _ => 31

/-- The three numbers name a day of the calendar. -/
def IsDay (year month day : Nat) : Prop :=
  (1 ≤ year ∧ year ≤ 9999) ∧ (1 ≤ month ∧ month ≤ 12) ∧ (1 ≤ day ∧ day ≤ daysInMonth year month)

instance (year month day : Nat) : Decidable (IsDay year month day) := by
  unfold IsDay
  infer_instance

/-- A day of the calendar. -/
structure Date where
  year : Nat
  month : Nat
  day : Nat
  isDay : IsDay year month day
  deriving DecidableEq

namespace Date

instance : Inhabited Date := ⟨⟨1, 1, 1, by decide⟩⟩

/-- The day with these numbers, if there is one. -/
def ofNumbers? (year month day : Nat) : Option Date :=
  if h : IsDay year month day then some ⟨year, month, day, h⟩ else none

/-- The number of days before a year. -/
def daysBeforeYear (year : Nat) : Nat :=
  let y := year - 1
  y * 365 + y / 4 - y / 100 + y / 400

/-- The number of days of a year before a month. -/
def daysBeforeMonth (year month : Nat) : Nat :=
  (List.range (month - 1)).foldl (fun days m => days + daysInMonth year (m + 1)) 0

/-- The number of a day: 1 January of year 1 has number 1. -/
def ordinal (d : Date) : Nat :=
  daysBeforeYear d.year + daysBeforeMonth d.year d.month + d.day

/-- The weekday that a year starts with, Monday being 0. -/
def firstWeekday (year : Nat) : Nat := daysBeforeYear year % 7

/-- The month and day of the `n`th day of a year, looking from `month` on. -/
def monthAndDay (year n : Nat) : Nat → Nat → Nat × Nat
  | 0, month => (month, n)
  | fuel + 1, month =>
    let before := daysBeforeMonth year (month + 1)
    if n ≤ before then (month, n - daysBeforeMonth year month)
    else monthAndDay year n fuel (month + 1)

/-- The day with a number in a year or in the years next to it. -/
def ofOrdinalNear? (year n : Nat) : Option Date :=
  let y :=
    if n ≤ daysBeforeYear year then year - 1
    else if n ≤ daysBeforeYear (year + 1) then year
    else year + 1
  let (month, day) := monthAndDay y (n - daysBeforeYear y) 12 1
  ofNumbers? y month day

/-- A year has a 53rd week when it starts on a Thursday, or on a Wednesday in a leap year. -/
def hasWeek53 (year : Nat) : Bool :=
  firstWeekday year == 3 || (firstWeekday year == 2 && isLeapYear year)

/-- The day of a week date: weeks start on Monday, and the first week of a year is the one
that holds its first Thursday. -/
def ofWeek? (year week weekday : Nat) : Option Date :=
  if year = 0 ∨ week = 0 ∨ 53 < week ∨ (week = 53 ∧ !hasWeek53 year) ∨ weekday = 0 ∨ 7 < weekday then
    none
  else
    let first := firstWeekday year
    let start : Int := daysBeforeYear year + 1 - first
    let monday := if first > 3 then start + 7 else start
    let n := monday + (week - 1) * 7 + (weekday - 1)
    if n ≤ 0 then none else ofOrdinalNear? year n.toNat

/-- Earlier in the calendar. -/
def lt (a b : Date) : Bool := a.ordinal < b.ordinal

end Date

/-- `n` in at least `width` digits. -/
def padded (width n : Nat) : String :=
  let ds := Nat.toDigits 10 n
  String.ofList (List.replicate (width - ds.length) '0' ++ ds)

/-- Year, month and day with hyphens. -/
def Date.toText (d : Date) : String :=
  padded 4 d.year ++ "-" ++ padded 2 d.month ++ "-" ++ padded 2 d.day

end Assay
