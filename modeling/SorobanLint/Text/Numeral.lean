import SorobanLint.Double.Decimal
import SorobanLint.Text.Digit
import SorobanLint.Text.Hex
import SorobanLint.Text.Lower
import SorobanLint.Text.Quoted

/-!
# Numerals

The number that a whole text denotes, apart from blanks around it: a whole number in a base up to
16, whose own mark may stand in front of the digits, or a number of double precision.  The digits
may be those of any script.
-/

namespace SorobanLint
namespace Numeral

open Text

/-- Why a text is no numeral. -/
inductive Fault where
  /-- The text denotes no whole number in the base. -/
  | notWhole (base : Nat) (text : List Char)
  /-- The text has too many digits. -/
  | tooLong (digits : Nat)
  /-- The text denotes no number. -/
  | notReal (text : List Char)
deriving DecidableEq, Repr

namespace Fault

/-- The fault in words; of a long text that is no whole number, only the beginning is told. -/
def message : Fault → String
  | notWhole base text =>
    let shown := String.ofList ((quoted (String.ofList text)).toList.take 200)
    s!"invalid literal for int() with base {base}: " ++ shown
  | tooLong digits => tooManyDigits digits
  | notReal text => "could not convert string to float: " ++ quoted (String.ofList text)

end Fault

/-- The text without blanks around it, with its digits in ASCII. -/
def plain (text : List Char) : List Char :=
  (unpad text).map plainDigit

/-- Whether a number is negative, and its text without the sign. -/
def splitSign : List Char → Bool × List Char
  | '-' :: rest => (true, rest)
  | '+' :: rest => (false, rest)
  | text => (false, text)

/-- The value of a digit in a base. -/
def digitIn? (base : Nat) (c : Char) : Option Nat :=
  (hexValue? c).filter (· < base)

/-- The text without the mark of its base in front. -/
def dropMark (base : Nat) : List Char → List Char
  | '0' :: c :: rest =>
    let mark := c.toLower
    if base = 16 && mark = 'x' || base = 8 && mark = 'o' || base = 2 && mark = 'b' then rest
    else '0' :: c :: rest
  | text => text

/-- The number that digits denote in a base. -/
def inBase (base : Nat) (digits : List Char) : Nat :=
  digits.foldl (fun n c => base * n + (digitIn? base c).getD 0) 0

/-- The whole number that a text denotes in a base. -/
def whole (base : Nat) (text : List Char) : Except Fault Int :=
  let (negative, unsigned) := splitSign (plain text)
  let unmarked := dropMark base unsigned
  let digits := unmarked.takeWhile fun c => (digitIn? base c).isSome
  if base = 10 && digitLimit < digits.length then .error (.tooLong digits.length)
  else if digits.isEmpty || digits.length < unmarked.length then .error (.notWhole base text)
  else
    let n : Int := inBase base digits
    .ok (if negative then -n else n)

/-- The exponent behind the digits of a number; nothing if there is more than that. -/
def exponent? : List Char → Option Int
  | [] => some 0
  | c :: rest =>
    let (negative, digits) := splitSign rest
    if c.toLower = 'e' && !digits.isEmpty && digits.all Char.isDigit then
      let n : Int := decimal digits
      some (if negative then -n else n)
    else none

/-- The finite number that a text without a sign denotes. -/
def finite? (negative : Bool) (text : List Char) : Option Double :=
  let integral := text.takeWhile Char.isDigit
  let behind := text.drop integral.length
  let fraction := match behind with
    | '.' :: rest => rest.takeWhile Char.isDigit
    | _ => []
  let behind := match behind with
    | '.' :: rest => rest.drop fraction.length
    | _ => behind
  if integral.isEmpty && fraction.isEmpty then none
  else (exponent? behind).map (Double.ofDecimal negative integral fraction)

/-- The number that a text denotes. -/
def real (text : List Char) : Except Fault Double :=
  let (negative, unsigned) := splitSign (plain text)
  let word := String.ofList (unsigned.map Char.toLower)
  if word = "nan" then .ok .nan
  else if word = "inf" || word = "infinity" then .ok (.infinite negative)
  else
    match finite? negative unsigned with
    | some x => .ok x
    | none => .error (.notReal text)

end Numeral
end SorobanLint
