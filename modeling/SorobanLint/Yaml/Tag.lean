import SorobanLint.Text.Hex
import SorobanLint.Text.Pattern
import SorobanLint.Yaml.Cursor

/-!
# YAML tags

The tag of a node tells the type of its value.  A plain scalar is a truth value, a number, a time
or nothing if it looks like one, and a text otherwise.
-/

namespace SorobanLint
namespace Yaml

/-- The tag of a node. -/
inductive Tag where
  | null
  | bool
  | int
  | float
  | timestamp
  | binary
  | str
  | seq
  | map
  | set
  /-- A sequence of mappings with one entry each. -/
  | pairs
  /-- The key of entries that are copied. -/
  | merge
  /-- The key of an entry that stands for its mapping where a scalar is needed. -/
  | value
  /-- A tag that no value has. -/
  | unknown
deriving DecidableEq, Repr, Inhabited

namespace Tag

/-- The prefix of the tags of standard types. -/
def standard : List Char := "tag:yaml.org,2002:".toList

/-- The standard tags by their names. -/
def names : List (String × Tag) := [
  ("null", null), ("bool", bool), ("int", int), ("float", float), ("timestamp", timestamp),
  ("binary", binary), ("str", str), ("seq", seq), ("map", map), ("set", set), ("omap", pairs),
  ("pairs", pairs), ("merge", merge), ("value", value)]

/-- The tag that is written in full. -/
def ofText (text : List Char) : Tag :=
  if standard.isPrefixOf text then
    (names.lookup (String.ofList (text.drop standard.length))).getD unknown
  else unknown

/-! ### Plain scalars -/

/-- Whether the whole text matches; a line feed may stand behind it. -/
def isWhole (pattern : Pattern) (text : List Char) : Bool :=
  (Pattern.all [pattern, .maybe "\n", .last]).isHeadOf text

/-- A truth value: a word in small letters, with a capital first letter, or in capitals. -/
def truth : Pattern :=
  .oneOf ["yes", "Yes", "YES", "no", "No", "NO", "true", "True", "TRUE", "false", "False", "FALSE",
    "on", "On", "ON", "off", "Off", "OFF"]

/-- Nothing. -/
def nothing : Pattern := .oneOf ["~", "null", "Null", "NULL"]

/-- A sign or none. -/
def sign : Pattern := .maybe (.one fun c => c = '+' || c = '-')

/-- Whether the character is a digit or the mark that groups digits. -/
def isDigitOrMark (c : Char) : Bool := c.isDigit || c = '_'

/-- A digit, and more of them perhaps. -/
def digits : Pattern := .seq (.one Char.isDigit) (.many isDigitOrMark)

/-- A part of a number in base 60 behind its colon. -/
def sixtieth : Pattern :=
  .all [":", .maybe (.one fun c => '0' ≤ c && c ≤ '5'), .one Char.isDigit]

/-- A whole number. -/
def integer : Pattern :=
  let nonzero : Pattern := .seq (.one fun c => '1' ≤ c && c ≤ '9') (.many isDigitOrMark)
  .seq sign <|
    .alt (.seq "0b" (.atLeastOne fun c => c = '0' || c = '1' || c = '_')) <|
    .alt (.seq "0" (.atLeastOne fun c => ('0' ≤ c && c ≤ '7') || c = '_')) <|
    .alt (.alt "0" nonzero) <|
    .alt (.seq "0x" (.atLeastOne fun c => (Text.hexValue? c).isSome || c = '_')) <|
    .all [nonzero, sixtieth, .star sixtieth]

/-- A number with a point, or one that is not finite. -/
def real : Pattern :=
  let exponent := Pattern.maybe <| .all [
    .one fun c => c = 'e' || c = 'E', .one fun c => c = '+' || c = '-', .atLeastOne Char.isDigit]
  .alt (.all [sign, digits, ".", .many isDigitOrMark, exponent]) <|
  .alt (.all [".", digits, exponent]) <|
  .alt (.all [sign, digits, sixtieth, .star sixtieth, ".", .many isDigitOrMark]) <|
  .alt (.all [sign, .oneOf [".inf", ".Inf", ".INF"]])
    (.oneOf [".nan", ".NaN", ".NAN"])

/-- One digit, or two. -/
def oneOrTwoDigits : Pattern := .seq (.one Char.isDigit) (.maybe (.one Char.isDigit))

/-- So many digits. -/
def exactDigits (n : Nat) : Pattern := .all (List.replicate n (.one Char.isDigit))

/-- A day. -/
def day : Pattern := .all [exactDigits 4, "-", exactDigits 2, "-", exactDigits 2]

/-- A day and a time of day, with a time zone or without. -/
def moment : Pattern :=
  let zone := Pattern.seq (.many isSpace) <| .alt "Z" <| .all [
    .one fun c => c = '+' || c = '-', oneOrTwoDigits, .maybe (.seq ":" (exactDigits 2))]
  .all [
    exactDigits 4, "-", oneOrTwoDigits, "-", oneOrTwoDigits,
    .alt (.one fun c => c = 'T' || c = 't') (.atLeastOne isSpace),
    oneOrTwoDigits, ":", exactDigits 2, ":", exactDigits 2,
    .maybe (.seq "." (.many Char.isDigit)), .maybe zone]

/-- The tag of a plain scalar, which its text tells. -/
def ofPlain (text : List Char) : Tag :=
  if text.isEmpty then null
  else if isWhole truth text then bool
  else if isWhole real text then float
  else if isWhole integer text then int
  else if isWhole "<<" text then merge
  else if isWhole nothing text then null
  else if isWhole (.alt day moment) text then timestamp
  else if isWhole "=" text then value
  else str

end Tag
end Yaml
end SorobanLint
