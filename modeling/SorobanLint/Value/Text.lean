import SorobanLint.Double.Decimal
import SorobanLint.Text.Quoted
import SorobanLint.Value.Basic

/-!
# Values as text

A text stands for itself; inside lists and maps texts are quoted.
-/

namespace SorobanLint
namespace Text

/-- One octet between the given quotes; only those of printable ASCII stand for themselves. -/
def quotedOctet (quote : Char) (octet : UInt8) : List Char :=
  let n := octet.toNat
  if n < 0x7f then quotedChar quote (Char.ofNat n) else '\\' :: 'x' :: hexDigits 2 n

/-- The octets between quotes, behind a mark. -/
def quotedOctets (octets : List UInt8) : String :=
  let quote := quoteFor (octets.map fun octet => Char.ofNat octet.toNat)
  String.ofList ('b' :: quote :: octets.flatMap (quotedOctet quote) ++ [quote])

end Text

namespace Value

mutual

/-- The value as it appears inside lists and maps. -/
def inner : Value → String
  | null => "None"
  | bool b => if b then "True" else "False"
  | int n => toString n
  | real x => x.text
  | date day => day.text
  | time moment => moment.text
  | bytes octets => Text.quotedOctets octets
  | string s => Text.quoted s
  | list items => "[" ++ ", ".intercalate (innerItems items) ++ "]"
  | pair first second => "(" ++ inner first ++ ", " ++ inner second ++ ")"
  | set items => "\x7b" ++ ", ".intercalate (innerItems items) ++ "\x7d"
  | map entries => "\x7b" ++ ", ".intercalate (innerEntries entries) ++ "\x7d"

/-- The items of a list as they appear inside it. -/
def innerItems : List Value → List String
  | [] => []
  | item :: rest => inner item :: innerItems rest

/-- The entries of a map as they appear inside it. -/
def innerEntries : List (Value × Value) → List String
  | [] => []
  | (key, value) :: rest => (inner key ++ ": " ++ inner value) :: innerEntries rest

end

/-- The value as text. -/
def text : Value → String
  | string s => s
  | value => value.inner

mutual

/-- Whether the value has no text, since a whole number in it has too many digits. -/
def isOverlong : Value → Bool
  | int n => Nat.pow 10 Text.digitLimit ≤ n.natAbs
  | list items => anyOverlong items
  | pair first second => isOverlong first || isOverlong second
  | set items => anyOverlong items
  | map entries => anyEntryOverlong entries
  | _ => false

/-- Whether one of the items has no text. -/
def anyOverlong : List Value → Bool
  | [] => false
  | item :: rest => isOverlong item || anyOverlong rest

/-- Whether a key or value of the entries has no text. -/
def anyEntryOverlong : List (Value × Value) → Bool
  | [] => false
  | (key, value) :: rest => isOverlong key || isOverlong value || anyEntryOverlong rest

end

/-- The text of the value as it is put into a message, or why it has none. -/
def told (value : Value) : Except String String :=
  if value.isOverlong then .error Text.tooLongToWrite else .ok value.text

end Value
end SorobanLint
