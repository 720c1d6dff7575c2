/-!
# Numbers of double precision

A finite number is a whole multiple of the smallest positive one, `2 ^ -1074`, so that sums and
comparisons are exact in whole numbers.  Every result is rounded to the nearest number with 53
significant bits, a tie to the even one, and beyond the greatest finite number to infinity.
-/

namespace SorobanLint

/-- A number of double precision. -/
inductive Double where
  /-- No number. -/
  | nan
  /-- Infinity, positive or negative. -/
  | infinite (negative : Bool)
  /-- A finite number by its sign and its magnitude in units of `2 ^ -1074`. -/
  | finite (negative : Bool) (units : Nat)
deriving DecidableEq, Repr, Inhabited

namespace Double

/-- The number of bits below the point. -/
def fractionBits : Nat := 1074

/-- The number of significant bits. -/
def significantBits : Nat := 53

/-- The greatest finite magnitude. -/
def greatest : Nat := (Nat.pow 2 significantBits - 1) * Nat.pow 2 2045

/-- Zero with a sign. -/
def zero (negative : Bool) : Double := finite negative 0

/-- The whole number nearest to a quotient; of two, the even one. -/
def roundQuotient (n d : Nat) : Nat :=
  let low := n / d
  let rest := 2 * (n % d)
  if rest < d || rest = d && low % 2 = 0 then low else low + 1

/-- The magnitude nearest to a quotient of units. -/
def nearest (n d : Nat) : Nat :=
  let scale := Nat.pow 2 ((n / d).log2 + 1 - significantBits)
  roundQuotient n (d * scale) * scale

/-- The number nearest to a quotient of units. -/
def ofUnits (negative : Bool) (n d : Nat) : Double :=
  let units := nearest n d
  if units ≤ greatest then finite negative units else infinite negative

/-- The number nearest to a quotient. -/
def ofQuotient (negative : Bool) (n d : Nat) : Double :=
  ofUnits negative (n * Nat.pow 2 fractionBits) d

/-- The number nearest to a signed count of units; zero has the given sign. -/
def ofSignedUnits (zeroNegative : Bool) (n : Int) (d : Nat) : Double :=
  if n = 0 then zero zeroNegative else ofUnits (n < 0) n.natAbs d

/-- The finite magnitude with its sign, in units. -/
def signed (negative : Bool) (units : Nat) : Int :=
  if negative then -(units : Int) else units

/-- The number with the other sign. -/
def neg : Double → Double
  | nan => nan
  | infinite negative => infinite !negative
  | finite negative units => finite (!negative) units

/-- The sum of two numbers. -/
def add : Double → Double → Double
  | nan, _ => nan
  | _, nan => nan
  | infinite a, infinite b => if a = b then infinite a else nan
  | infinite a, finite _ _ => infinite a
  | finite _ _, infinite b => infinite b
  | finite a m, finite b n => ofSignedUnits (a && b) (signed a m + signed b n) 1

/-- The product of two numbers. -/
def mul : Double → Double → Double
  | nan, _ => nan
  | _, nan => nan
  | infinite a, infinite b => infinite (a != b)
  | infinite a, finite b n => if n = 0 then nan else infinite (a != b)
  | finite a m, infinite b => if m = 0 then nan else infinite (a != b)
  | finite a m, finite b n => ofUnits (a != b) (m * n) (Nat.pow 2 fractionBits)

/-- Whether the number is zero. -/
def isZero : Double → Bool
  | finite _ units => units = 0
  | _ => false

/-- The whole number that the number is, if it is one. -/
def toInt? : Double → Option Int
  | finite negative units =>
    let unit := Nat.pow 2 fractionBits
    if units % unit = 0 then some (signed negative (units / unit)) else none
  | _ => none

/-- Whether two numbers stand for the same key: both zeros are one key, and so is what is no
number. -/
def same : Double → Double → Bool
  | finite a m, finite b n => signed a m = signed b n
  | a, b => a = b

end Double
end SorobanLint
