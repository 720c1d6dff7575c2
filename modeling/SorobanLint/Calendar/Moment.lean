import SorobanLint.Calendar.Date

/-!
# Points in time

A day and a time of day to the microsecond, in a time zone or in none.  In text, the fraction of
the second has six digits or is left out if it is zero, and universal time is marked by `Z`.
-/

namespace SorobanLint
namespace Calendar

/-- A point in time. -/
structure Moment where
  /-- The day. -/
  date : Date
  /-- The hour. -/
  hour : Nat
  /-- The minute. -/
  minute : Nat
  /-- The second. -/
  second : Nat
  /-- The microseconds beyond that. -/
  micros : Nat
  /-- How many minutes the time zone is ahead of universal time, if there is one. -/
  zone : Option Int
deriving DecidableEq, Repr

namespace Moment

/-- The point in time with the given numbers.  The time zone is looked at first, then the day, then
the time of day. -/
def ofNumbers (year month day hour minute second micros : Nat) (zone : Option Int) :
    Except Fault Moment := do
  match zone with
  | some minutes => if minutesPerDay ≤ minutes.natAbs then throw (.zone minutes)
  | none => pure ()
  let date ← Date.ofNumbers year month day
  if 23 < hour then throw .hour
  if 59 < minute then throw .minute
  if 59 < second then throw .second
  return ⟨date, hour, minute, second, micros, zone⟩

/-- The microseconds that the digits of a fraction stand for; further digits are dropped. -/
def microsOf (fraction : List Char) : Nat :=
  let digits := fraction.take 6
  Text.decimal (digits ++ List.replicate (6 - digits.length) '0')

/-- The time of day as text. -/
def clockText (moment : Moment) : List Char :=
  let fraction := if moment.micros = 0 then [] else '.' :: Text.padded 6 moment.micros
  Text.padded 2 moment.hour ++ ':' :: Text.padded 2 moment.minute ++
    ':' :: Text.padded 2 moment.second ++ fraction

/-- The time zone as text. -/
def zoneText : Option Int → List Char
  | none => []
  | some minutes =>
    if minutes = 0 then ['Z']
    else
      (if minutes < 0 then '-' else '+') ::
        Text.padded 2 (minutes.natAbs / 60) ++ ':' :: Text.padded 2 (minutes.natAbs % 60)

/-- The point in time as text. -/
def text (moment : Moment) : String :=
  moment.date.text ++ String.ofList ('T' :: moment.clockText ++ zoneText moment.zone)

end Moment
end Calendar
end SorobanLint
