import SorobanLint.Yaml.Fault

/-!
# Numbers in YAML

A number may have a sign in front and marks between its digits.  A whole number is binary behind
`0b`, hexadecimal behind `0x` and octal behind any other zero; the parts of a number between colons
are its digits in base 60.
-/

namespace SorobanLint
namespace Yaml

/-- Whether a number is negative, and its text without sign and marks; nothing if no text is
there. -/
def unsigned (text : List Char) : Except Fault (Bool × List Char) :=
  match text.filter (· ≠ '_') with
  | [] => .error .emptyNumber
  | text => .ok (Numeral.splitSign text)

/-- The whole number that a text denotes in a base. -/
def whole (base : Nat) (text : List Char) : Except Fault Int :=
  (Numeral.whole base text).mapError Fault.numeral

/-- The number of double precision that a text denotes. -/
def real (text : List Char) : Except Fault Double :=
  (Numeral.real text).mapError Fault.numeral

/-- The parts of a text between colons. -/
def partsOf (text : List Char) : List (List Char) :=
  Text.pieces (· = ':') text

/-- The magnitude of a whole number, which may have a sign of its own. -/
def wholeMagnitude (text : List Char) : Except Fault Int :=
  match text with
  | [] => .error .emptyNumber
  | ['0'] => .ok 0
  | '0' :: 'b' :: rest => whole 2 rest
  | '0' :: 'x' :: rest => whole 16 rest
  | '0' :: _ => whole 8 text
  | _ =>
    if text.contains ':' then do
      let digits ← (partsOf text).mapM (whole 10)
      return digits.foldl (fun n digit => 60 * n + digit) 0
    else whole 10 text

/-- The whole number that a scalar denotes. -/
def integerOf (text : List Char) : Except Fault Int := do
  let (negative, text) ← unsigned text
  let n ← wholeMagnitude text
  return if negative then -n else n

/-- The sum of digits in base 60, the last of which comes first and has the weight
`60 ^ place`. -/
def sumParts (place : Nat) (sum : Double) : List Double → Except Fault Double
  | [] => .ok sum
  | digit :: rest =>
    match Double.ofQuotient false (Nat.pow 60 place) 1 with
    | .finite negative units =>
      sumParts (place + 1) (sum.add (digit.mul (.finite negative units))) rest
    | _ => .error .tooManyParts

/-- The magnitude of a number of double precision, which may have a sign of its own. -/
def realMagnitude (text : List Char) : Except Fault Double :=
  if text = ".inf".toList then .ok (.infinite false)
  else if text = ".nan".toList then .ok .nan
  else if text.contains ':' then do
    let digits ← (partsOf text).mapM real
    sumParts 0 (.zero false) digits.reverse
  else real text

/-- The number of double precision that a scalar denotes. -/
def realOf (text : List Char) : Except Fault Double := do
  let (negative, text) ← unsigned (Text.lower text)
  let x ← realMagnitude text
  return if negative then x.neg else x

end Yaml
end SorobanLint
