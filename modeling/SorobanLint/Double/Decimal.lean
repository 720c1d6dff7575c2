import SorobanLint.Double.Basic
import SorobanLint.Text.Decimal

/-!
# Decimal texts of numbers

A decimal is read as the nearest number.  A number is written with the fewest digits that are read
back as it; of the decimals with so many digits, the nearest one is chosen.
-/

namespace SorobanLint
namespace Double

open Text

/-- The magnitude nearest to `n · 10 ^ exponent`. -/
def unitsOfDecimal (n : Nat) (exponent : Int) : Nat :=
  nearest (n * Nat.pow 10 exponent.toNat * Nat.pow 2 fractionBits)
    (Nat.pow 10 (-exponent).toNat)

/-- The number nearest to `0.d₁d₂… · 10 ^ point`.  Far beyond the greatest finite number and far
below the smallest one the digits do not matter. -/
def ofDigits (negative : Bool) (digits : List Char) (point : Int) : Double :=
  let zeros := (digits.takeWhile (· = '0')).length
  let digits := digits.drop zeros
  let point := point - zeros
  if digits.isEmpty || point < -400 then zero negative
  else if 400 < point then infinite negative
  else
    let units := unitsOfDecimal (decimal digits) (point - digits.length)
    if units ≤ greatest then finite negative units else infinite negative

/-- The number nearest to `whole.fraction · 10 ^ exponent`. -/
def ofDecimal (negative : Bool) (whole fraction : List Char) (exponent : Int) : Double :=
  ofDigits negative (whole ++ fraction) (whole.length + exponent)

/-- The place of the decimal point in front of which the digits of a magnitude stand: the least
`p` such that the magnitude is below `10 ^ p`. -/
def pointOf (units : Nat) : Int :=
  let guess := ((units.log2 : Int) - fractionBits) * 30103 / 100000
  let power := guess + 1
  let scaled := units * Nat.pow 10 (-power).toNat
  if scaled < Nat.pow 10 power.toNat * Nat.pow 2 fractionBits then power else power + 1

/-- The decimal with the given number of digits that is nearest to a magnitude among those that are
read back as it; of two equally near, the even one. -/
def decimalOf? (units : Nat) (point : Int) (count : Nat) : Option Nat :=
  let exponent := point - count
  let n := units * Nat.pow 10 (-exponent).toNat
  let d := Nat.pow 10 exponent.toNat * Nat.pow 2 fractionBits
  let best := roundQuotient n d
  let other := if best = n / d then best + 1 else n / d
  [best, other].find? fun candidate => unitsOfDecimal candidate exponent = units

/-- The greatest number of digits that a number needs. -/
def mostDigits : Nat := 17

/-- The digits of a positive magnitude behind the decimal point, and the power of ten they are
multiplied with. -/
def shortest (units : Nat) : List Char × Int :=
  let point := pointOf units
  let best := (List.range mostDigits).findSome? fun count =>
    (decimalOf? units point (count + 1)).map fun n => (n, count + 1)
  let (n, count) := best.getD (0, 0)
  let digits := Nat.toDigits 10 n
  (dropEndWhile (· = '0') digits, point + digits.length - count)

/-- The text of a number. -/
def text : Double → String
  | nan => "nan"
  | infinite negative => if negative then "-inf" else "inf"
  | finite negative units =>
    let magnitude :=
      if units = 0 then ['0', '.', '0']
      else
        let (digits, point) := shortest units
        placePoint digits point
    String.ofList (if negative then '-' :: magnitude else magnitude)

end Double
end SorobanLint
