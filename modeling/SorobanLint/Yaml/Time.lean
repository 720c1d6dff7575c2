import SorobanLint.Calendar.Read
import SorobanLint.Value.Basic
import SorobanLint.Yaml.Cursor
import SorobanLint.Yaml.Fault

/-!
# Days and times in YAML

A day, and behind it perhaps a time of day with a fraction of the second and a time zone.  Numbers
of months, days, hours and the hours of a time zone may have one digit.
-/

namespace SorobanLint
namespace Yaml

open Calendar

/-- The number that one or two digits denote. -/
def shortNumber? (text : List Char) : Option (Nat × List Char) :=
  digits? 2 text <|> digits? 1 text

/-- Whether nothing is left of a text but a line feed perhaps. -/
def isFinished (text : List Char) : Bool :=
  text.isEmpty || text = ['\n']

/-- The text behind the separator of day and time. -/
def behindSeparator? : List Char → Option (List Char)
  | c :: rest =>
    if c = 'T' || c = 't' then some rest
    else if isSpace c then some (rest.dropWhile isSpace)
    else none
  | [] => none

/-- The time zone in minutes that the rest of a text stands for. -/
def zoneOf? (text : List Char) : Option (Option Int) :=
  if isFinished text then some none
  else
    match text.dropWhile isSpace with
    | [] => none
    | c :: rest =>
      if c = 'Z' then (if isFinished rest then some (some 0) else none)
      else if c = '+' || c = '-' then do
        let (hours, rest) ← shortNumber? rest
        let (minutes, rest) ← match rest with
          | ':' :: rest => digits? 2 rest
          | _ => some (0, rest)
        let span : Int := 60 * hours + minutes
        if isFinished rest then return some (if c = '-' then -span else span) else none
      else none

/-- The day or point in time that a text denotes, if it has the form of one. -/
def timeOf? (text : List Char) : Option (Except Calendar.Fault Value) := do
  let (year, text) ← digits? 4 text
  let (month, text) ← shortNumber? (← behind? (· = '-') text)
  let (day, text) ← shortNumber? (← behind? (· = '-') text)
  if isFinished text then return (Date.ofNumbers year month day).map .date
  else
    let (hour, text) ← shortNumber? (← behindSeparator? text)
    let (minute, text) ← digits? 2 (← behind? (· = ':') text)
    let (second, text) ← digits? 2 (← behind? (· = ':') text)
    let (fraction, text) := match text with
      | '.' :: rest => (rest.takeWhile Char.isDigit, rest.dropWhile Char.isDigit)
      | _ => ([], text)
    let zone ← zoneOf? text
    let moment :=
      Moment.ofNumbers year month day hour minute second (Moment.microsOf fraction) zone
    return moment.map .time

/-- The day or point in time that a scalar denotes. -/
def timeOf (text : List Char) : Except Fault Value :=
  match timeOf? text with
  | some time => time.mapError Fault.calendar
  | none => .error .noTime

end Yaml
end SorobanLint
