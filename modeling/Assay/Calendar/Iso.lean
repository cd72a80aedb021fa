import Assay.Calendar.Moment

/-!
# Reading ISO 8601 texts

The extended and basic forms of calendar and week dates, alone (`Date.ofIso?`) or with a time
of day and an offset (`Moment.ofIso?`). The reader works on the bytes of the text; past the end
it sees zero bytes. It is lenient where the forms leave room: any character may separate day and
time, digits after the sixth decimal are dropped, a second colon or a decimal mark may come
before the fraction at any place, and one foreign character may stand before an offset.
-/

namespace Assay

namespace Iso

/-- The byte at a place, zero past the end. -/
def byteAt (bs : List UInt8) (i : Nat) : Nat := (bs[i]?.map UInt8.toNat).getD 0

/-- The byte is an ASCII digit. -/
def isDigitByte (b : Nat) : Bool := 48 ≤ b && b ≤ 57

/-- The number that `n` digits at a place write. -/
def number? (bs : List UInt8) (i n : Nat) : Option Nat :=
  (List.range n).foldlM (fun acc k =>
    let b := byteAt bs (i + k)
    if isDigitByte b then some (acc * 10 + (b - 48)) else none) 0

/-- A day written in the first `size` bytes. What follows a complete day is not looked at. -/
def day? (bs : List UInt8) (size : Nat) : Option Date := do
  let year ← number? bs 0 4
  let separated := byteAt bs 4 == 45
  let i := if separated then 5 else 4
  if byteAt bs i == 87 then
    let week ← number? bs (i + 1) 2
    let j := i + 3
    if j < size then
      if separated && byteAt bs j != 45 then none
      else
        let weekday ← number? bs (if separated then j + 1 else j) 1
        Date.ofWeek? year week weekday
    else Date.ofWeek? year week 1
  else
    let month ← number? bs i 2
    if separated && byteAt bs (i + 2) != 45 then none
    else
      let day ← number? bs (if separated then i + 3 else i + 2) 2
      Date.ofNumbers? year month day

/-- Hours, minutes, seconds and microseconds, and whether a foreign byte follows. -/
structure Clock where
  fields : List Nat
  microsecond : Nat
  followed : Bool

/-- The fraction of a second at a place: up to six digits count, further ones are dropped. -/
def fraction? (bs : List UInt8) (i stop : Nat) (fields : List Nat) : Option Clock := do
  let places := min (stop - i) 6
  let n ← number? bs i places
  let rest := (bs.drop (i + places)).dropWhile fun b => isDigitByte b.toNat
  some ⟨fields, n * Nat.pow 10 (6 - places), byteAt rest 0 != 0⟩

/-- Two-digit fields up to `stop`, `left` of them still allowed, then perhaps a fraction. -/
def clockFrom? (bs : List UInt8) (stop : Nat) (colons : Bool) :
    Nat → Nat → List Nat → Option Clock
  | 0, i, fields => fraction? bs i stop fields
  | left + 1, i, fields => do
    let n ← number? bs i 2
    let fields := fields ++ [n]
    let mark := byteAt bs (i + 2)
    let colons := if fields.length == 1 then mark == 58 else colons
    if stop ≤ i + 3 then some ⟨fields, 0, mark != 0⟩
    else if colons && mark == 58 then clockFrom? bs stop colons left (i + 3) fields
    else if mark == 46 || mark == 44 then fraction? bs (i + 3) stop fields
    else if !colons then clockFrom? bs stop colons left (i + 2) fields
    else none

/-- A clock reading between two places. -/
def clock? (bs : List UInt8) (start stop : Nat) : Option Clock :=
  clockFrom? (bs.drop start) (stop - start) true 3 0 []

/-- The offset that follows a sign at a place, in microseconds, of less than a day. A whole
number of zero seconds is universal time. -/
def offset? (bs : List UInt8) (i : Nat) : Option Int := do
  let c ← clock? bs (i + 1) bs.length
  if c.followed then none
  else
    let seconds := c.fields.getD 0 0 * 3600 + c.fields.getD 1 0 * 60 + c.fields.getD 2 0
    if seconds == 0 then some 0
    else if seconds ≥ 86400 then none
    else
      let micros : Int := seconds * 1000000 + c.microsecond
      some (if byteAt bs i == 45 then -micros else micros)

/-- A time of day, and an offset if one is written, filling the rest of the text. -/
def time? (date : Date) (bs : List UInt8) : Option Moment := do
  let zone := (bs.takeWhile fun b => b != 43 && b != 45 && b != 90).length
  let c ← clock? bs 0 zone
  let moment (offset : Option Int) : Option Moment :=
    let hour := c.fields.getD 0 0
    let minute := c.fields.getD 1 0
    let second := c.fields.getD 2 0
    if h : hour < 24 ∧ minute < 60 ∧ second < 60 ∧ c.microsecond < 1000000 then
      some ⟨date, ⟨hour, h.1⟩, ⟨minute, h.2.1⟩, ⟨second, h.2.2.1⟩, ⟨c.microsecond, h.2.2.2⟩, offset⟩
    else none
  if zone == bs.length then if c.followed then none else moment none
  else if byteAt bs zone == 90 then if byteAt bs (zone + 1) != 0 then none else moment (some 0)
  else
    let offset ← offset? bs zone
    moment (some offset)

/-- The bytes that the day takes before the separator. Week dates without hyphens are told
apart by the parity of the digits that follow. -/
def daySize (bs : List UInt8) : Nat :=
  if bs.length == 7 then 7
  else if byteAt bs 4 == 45 then
    if byteAt bs 5 == 87 then
      if bs.length > 8 && byteAt bs 8 == 45 then
        if bs.length == 9 then bs.length
        else if bs.length > 10 && isDigitByte (byteAt bs 10) then 8
        else 10
      else 8
    else 10
  else if byteAt bs 4 == 87 then
    let digits := ((bs.drop 7).takeWhile fun b => isDigitByte b.toNat).length
    let stop := 7 + digits
    if stop < 9 then stop else if stop % 2 == 0 then 7 else 8
  else 8

/-- The length of the character that starts with a byte. -/
def charSize (b : Nat) : Nat :=
  if b < 128 then 1 else if b / 16 == 14 then 3 else if b / 16 == 15 then 4 else 2

end Iso

/-- The day that an ISO text names. -/
def Date.ofIso? (s : String) : Option Date :=
  let bs := s.toUTF8.toList
  if bs.length == 7 || bs.length == 8 || bs.length == 10 then Iso.day? bs bs.length else none

/-- The moment that an ISO text names; a day alone is its midnight. -/
def Moment.ofIso? (s : String) : Option Moment := do
  let bs := s.toUTF8.toList
  if s.length < 7 then none
  else
    let size := Iso.daySize bs
    let date ← Iso.day? bs size
    if bs.length ≤ size then some (Moment.midnight date none)
    else Iso.time? date (bs.drop (size + Iso.charSize (Iso.byteAt bs size)))

end Assay
