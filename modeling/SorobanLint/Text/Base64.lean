/-!
# Base 64

Octets from text in base 64, four characters for three octets.  Characters that are no digits are
passed over, and the padding ends the text once the octets in front of it are complete.
-/

namespace SorobanLint
namespace Text

/-- The value of a digit in base 64. -/
def base64Value? (c : Char) : Option Nat :=
  if c.isUpper then some (c.toNat - 'A'.toNat)
  else if c.isLower then some (c.toNat - 'a'.toNat + 26)
  else if c.isDigit then some (c.toNat - '0'.toNat + 52)
  else if c = '+' then some 62
  else if c = '/' then some 63
  else none

/-- Read on behind `place` digits of a group of four and `pads` signs of padding, with the bits
`left` of the last digit still to be used; nothing if the text ends inside a group. -/
def base64From? (place left pads : Nat) : List Char → Option (List UInt8)
  | [] => if place = 0 then some [] else none
  | c :: rest =>
    if c = '=' then
      if place < 2 then base64From? place left pads rest
      else if 4 ≤ place + pads + 1 then some []
      else base64From? place left (pads + 1) rest
    else
      match base64Value? c with
      | none => base64From? place left pads rest
      | some n =>
        if place = 0 then base64From? 1 n 0 rest
        else if place = 1 then
          (UInt8.ofNat (4 * left + n / 16) :: ·) <$> base64From? 2 (n % 16) 0 rest
        else if place = 2 then
          (UInt8.ofNat (16 * left + n / 4) :: ·) <$> base64From? 3 (n % 4) 0 rest
        else (UInt8.ofNat (64 * left + n) :: ·) <$> base64From? 0 0 0 rest

/-- The octets that a text in base 64 stands for; nothing if it ends inside a group of digits. -/
def base64? (text : List Char) : Option (List UInt8) :=
  base64From? 0 0 0 text

end Text
end SorobanLint
