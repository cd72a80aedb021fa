import Assay.Calendar.Date

/-!
# Moments

A day with a time of day in microseconds and, perhaps, an offset from universal time. Moments
with an offset are ordered by their instants; a moment with an offset and one without have no
order (`Moment.lt?`) and are never equal.
-/

namespace Assay

/-- A day, a time of day, and an offset from universal time in microseconds. -/
structure Moment where
  date : Date
  hour : Fin 24
  minute : Fin 60
  second : Fin 60
  microsecond : Fin 1000000
  offset : Option Int
  deriving DecidableEq, Inhabited

namespace Moment

/-- Midnight of a day. -/
def midnight (d : Date) (offset : Option Int) : Moment :=
  ⟨d, 0, 0, 0, 0, offset⟩

/-- The microseconds of a day. -/
def perDay : Int := 24 * 60 * 60 * 1000000

/-- Microseconds from the first midnight by the moment's own clock. -/
def localTime (t : Moment) : Int :=
  t.date.ordinal * perDay
    + (((t.hour.val * 60 + t.minute.val) * 60 + t.second.val) * 1000000 + t.microsecond.val : Nat)

/-- Microseconds from the first midnight by universal time, or by the own clock where no
offset is known. -/
def instant (t : Moment) : Int := t.localTime - t.offset.getD 0

/-- Both moments know their offset, or neither does. -/
def comparable (a b : Moment) : Bool := a.offset.isSome == b.offset.isSome

/-- The moments are the same instant. -/
def eq (a b : Moment) : Bool := comparable a b && a.instant == b.instant

/-- Earlier, where the two can be compared. -/
def lt? (a b : Moment) : Option Bool :=
  if comparable a b then some (a.instant < b.instant) else none

/-- An offset as a sign, hours and minutes, with seconds and microseconds when they are
not zero. -/
def offsetText (offset : Int) : String :=
  let sign := if offset < 0 then "-" else "+"
  let n := offset.natAbs
  let micro := n % 1000000
  let s := n / 1000000
  let base := sign ++ padded 2 (s / 3600) ++ ":" ++ padded 2 (s / 60 % 60)
  let base := if s % 60 != 0 || micro != 0 then base ++ ":" ++ padded 2 (s % 60) else base
  if micro != 0 then base ++ "." ++ padded 6 micro else base

/-- Day, separator, time of day with microseconds when they are not zero, and offset. -/
def toText (separator : String) (t : Moment) : String :=
  let time := padded 2 t.hour ++ ":" ++ padded 2 t.minute ++ ":" ++ padded 2 t.second
  let time := if t.microsecond.val != 0 then time ++ "." ++ padded 6 t.microsecond else time
  t.date.toText ++ separator ++ time ++ (t.offset.map offsetText).getD ""

end Moment

end Assay
