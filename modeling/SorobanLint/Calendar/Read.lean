import SorobanLint.Calendar.Moment

/-!
# Reading points in time

The common forms of a point in time in text: a day, and perhaps behind a `T`, a space or an
underscore the time of day, with seconds, a fraction and a time zone or without.
-/

namespace SorobanLint
namespace Calendar

/-- The number that the first digits of a text denote, exactly so many, and the text behind them. -/
def digits? (count : Nat) (text : List Char) : Option (Nat × List Char) :=
  let digits := text.take count
  if digits.length = count && digits.all Char.isDigit then
    some (Text.decimal digits, text.drop count)
  else none

/-- The text behind a character that must come first. -/
def behind? (p : Char → Bool) : List Char → Option (List Char)
  | [] => none
  | c :: rest => if p c then some rest else none

/-- The year, month and day at the beginning of a text. -/
def day? (text : List Char) : Option (Nat × Nat × Nat × List Char) := do
  let (year, text) ← digits? 4 text
  let (month, text) ← digits? 2 (← behind? (· = '-') text)
  let (day, text) ← digits? 2 (← behind? (· = '-') text)
  return (year, month, day, text)

/-- The second and the digits of its fraction, which may be left out. -/
def seconds? : List Char → Option (Nat × List Char × List Char)
  | ':' :: text => do
    let (second, text) ← digits? 2 text
    match text with
    | c :: rest =>
      if c = '.' || c = ',' then
        let fraction := rest.takeWhile Char.isDigit
        if fraction.isEmpty then none else some (second, fraction, rest.drop fraction.length)
      else some (second, [], text)
    | [] => some (second, [], [])
  | text => some (0, [], text)

/-- The time zone in minutes that a text stands for, all of it. -/
def zone? : List Char → Option (Option Int)
  | [] => some none
  | ['Z'] => some (some 0)
  | ['z'] => some (some 0)
  | c :: text => do
    if !(c = '+' || c = '-' || c = '−') then none
    let (hours, text) ← digits? 2 text
    let (minutes, text) ← digits? 2 (if text.head? = some ':' then text.drop 1 else text)
    if !text.isEmpty || 59 < minutes then none
    let span : Int := 60 * hours + minutes
    return some (if c = '+' then span else -span)

namespace Moment

/-- Read a point in time; a day alone stands for its beginning. -/
def ofText? (text : String) : Option Moment := do
  let (year, month, day, text) ← day? text.toList
  if text.isEmpty then (ofNumbers year month day 0 0 0 0 none).toOption
  else
    let text ← behind? (fun c => c = 'T' || c = 't' || c = ' ' || c = '_') text
    let (hour, text) ← digits? 2 text
    let (minute, text) ← digits? 2 (← behind? (· = ':') text)
    let (second, fraction, text) ← seconds? text
    let zone ← zone? text
    (ofNumbers year month day hour minute second (microsOf fraction) zone).toOption

end Moment
end Calendar
end SorobanLint
