import SorobanLint.Text.Blank

/-!
# Decimal digits

The number that decimal digits denote, and the text of a number that is not whole, given by its
digits: a point with a digit on either side while the number is neither very large nor very small,
and an exponent of at least two digits beyond that.
-/

namespace SorobanLint
namespace Text

/-- The number that decimal digits denote behind the digits already read. -/
def decimalFrom (n : Nat) (digits : List Char) : Nat :=
  digits.foldl (fun n c => 10 * n + (c.toNat - '0'.toNat)) n

/-- The number that decimal digits denote. -/
def decimal (digits : List Char) : Nat :=
  decimalFrom 0 digits

/-- The greatest count of decimal digits that a whole number is read from. -/
def digitLimit : Nat := 4300

/-- That a whole number has too many decimal digits, in words. -/
def tooManyDigits (count : Nat) : String :=
  s!"Exceeds the limit ({digitLimit} digits) for integer string conversion: value has {count} " ++
    "digits; use sys.set_int_max_str_digits() to increase the limit"

/-- That a whole number has too many decimal digits to be written, in words. -/
def tooLongToWrite : String :=
  s!"Exceeds the limit ({digitLimit} digits) for integer string conversion; " ++
    "use sys.set_int_max_str_digits() to increase the limit"

/-- The decimal digits of a number, with zeros in front up to the given width. -/
def padded (width n : Nat) : List Char :=
  let digits := Nat.toDigits 10 n
  List.replicate (width - digits.length) '0' ++ digits

/-- The text of an exponent, with a sign and at least two digits. -/
def exponentText (exponent : Int) : List Char :=
  (if exponent < 0 then '-' else '+') :: padded 2 exponent.natAbs

/-- The text of `0.d₁d₂… · 10 ^ point`, for digits that begin and end with no zero. -/
def placePoint (digits : List Char) (point : Int) : List Char :=
  if point ≤ -4 || 16 < point then
    let fraction := digits.drop 1
    digits.take 1 ++ (if fraction.isEmpty then [] else '.' :: fraction) ++
      'e' :: exponentText (point - 1)
  else if point ≤ 0 then
    '0' :: '.' :: List.replicate point.natAbs '0' ++ digits
  else
    let whole := point.toNat
    let padded := digits ++ List.replicate (whole - digits.length) '0'
    let fraction := padded.drop whole
    padded.take whole ++ '.' :: (if fraction.isEmpty then ['0'] else fraction)

end Text
end SorobanLint
