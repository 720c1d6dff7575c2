import SorobanLint.Double.Decimal
import SorobanLint.Text.Hex
import SorobanLint.Text.Lines
import SorobanLint.Value.Basic

/-!
# JSON tokens

A text is cut into tokens, each with its offset, up to the first character that begins no token.
A broken text literal is a token too, since what is wrong with it matters only where a text is
expected.
-/

namespace SorobanLint
namespace Json

/-- What is wrong with a text that is no JSON. -/
inductive Reason where
  | expectedValue
  | expectedName
  | expectedColon
  | expectedComma
  | extraData
  | openText
  | controlCharacter
  | badEscape
  | badCodeUnit
  | byteOrderMark
  /-- A whole number has more digits than are read. -/
  | tooManyDigits (count : Nat)
  /-- A list lies deeper than is read. -/
  | deepList
  /-- A map lies deeper than is read. -/
  | deepMap
deriving DecidableEq, Repr

/-- What is wrong with a text that is no JSON, and at which offset. -/
structure Fault where
  /-- What is wrong. -/
  reason : Reason
  /-- The offset at which it shows. -/
  offset : Nat
deriving DecidableEq, Repr

namespace Reason

/-- The reason in words. -/
def message : Reason → String
  | expectedValue => "Expecting value"
  | expectedName => "Expecting property name enclosed in double quotes"
  | expectedColon => "Expecting ':' delimiter"
  | expectedComma => "Expecting ',' delimiter"
  | extraData => "Extra data"
  | openText => "Unterminated string starting at"
  | controlCharacter => "Invalid control character at"
  | badEscape => "Invalid \\escape"
  | badCodeUnit => "Invalid \\uXXXX escape"
  | byteOrderMark => "Unexpected UTF-8 BOM (decode using utf-8-sig)"
  | tooManyDigits count => Text.tooManyDigits count
  | deepList => "maximum recursion depth exceeded while decoding a JSON array from a unicode string"
  | deepMap => "maximum recursion depth exceeded while decoding a JSON object from a unicode string"

/-- Whether the place is told with the reason; a limit is told without. -/
def isPlaced : Reason → Bool
  | tooManyDigits _ => false
  | deepList => false
  | deepMap => false
  | _ => true

end Reason

namespace Fault

/-- The fault in words, with its line and column in the text. -/
def message (fault : Fault) (text : List Char) : String :=
  if fault.reason.isPlaced then
    let before := text.take fault.offset
    let line := Text.lineFeeds before + 1
    let column := (before.reverse.takeWhile (· ≠ '\n')).length + 1
    s!"{fault.reason.message}: line {line} column {column} (char {fault.offset})"
  else fault.reason.message

end Fault

/-- A token of JSON. -/
inductive Token where
  /-- A bracket, brace, colon or comma. -/
  | mark (c : Char)
  /-- A number, `null`, a truth value or a number that is not finite. -/
  | scalar (value : Value)
  /-- A whole number with more digits than are read. -/
  | long (digits : Nat)
  /-- A text literal, or what is wrong with it. -/
  | text (content : Except Fault String)
  /-- Anything else, at which the tokens end. -/
  | junk

/-- The value of four hexadecimal digits. -/
def codeUnit? (a b c d : Char) : Option Nat :=
  Text.hexNumber? [a, b, c, d]

/-- Whether a code unit is the first half of a surrogate pair. -/
def isHighSurrogate (n : Nat) : Bool := 0xd800 ≤ n && n ≤ 0xdbff

/-- Whether a code unit is the second half of a surrogate pair. -/
def isLowSurrogate (n : Nat) : Bool := 0xdc00 ≤ n && n ≤ 0xdfff

/-- The code point of a surrogate pair. -/
def joinSurrogates (high low : Nat) : Nat :=
  0x10000 + (high - 0xd800) * 0x400 + (low - 0xdc00)

/-- The character of a code unit; half of a surrogate pair alone is replaced. -/
def charOf (n : Nat) : Char :=
  if isHighSurrogate n || isLowSurrogate n then '\ufffd' else Char.ofNat n

/-- The character that a letter behind a backslash stands for. -/
def unescape? (c : Char) : Option Char :=
  if c = '"' || c = '\\' || c = '/' then some c
  else if c = 'b' then some (Char.ofNat 8)
  else if c = 'f' then some (Char.ofNat 12)
  else if c = 'n' then some '\n'
  else if c = 'r' then some '\r'
  else if c = 't' then some '\t'
  else none

/-- What a text literal holds, and the text behind it. -/
structure Literal where
  /-- The content, or what is wrong with it. -/
  content : Except Fault (List Char)
  /-- The text behind the closing quote; nothing for a broken literal. -/
  rest : List Char

namespace Literal

/-- A broken literal. -/
def broken (reason : Reason) (offset : Nat) : Literal := ⟨.error ⟨reason, offset⟩, []⟩

/-- The literal with a character in front. -/
def cons (c : Char) (literal : Literal) : Literal :=
  { literal with content := literal.content.map (c :: ·) }

/-- Read a text literal that begins at `start`, from the given offset on. -/
def read (start : Nat) : Nat → List Char → Literal
  | _, [] => broken .openText start
  | _, '"' :: rest => ⟨.ok [], rest⟩
  | _, '\\' :: [] => broken .openText start
  | offset, '\\' :: 'u' :: a :: b :: c :: d :: '\\' :: 'u' :: e :: f :: g :: h :: i :: rest =>
    match codeUnit? a b c d with
    | none => broken .badCodeUnit (offset + 1)
    | some high =>
      if isHighSurrogate high then
        match codeUnit? e f g h with
        | none => broken .badCodeUnit (offset + 7)
        | some low =>
          if isLowSurrogate low then
            cons (Char.ofNat (joinSurrogates high low)) (read start (offset + 12) (i :: rest))
          else
            cons (charOf high) (read start (offset + 6) ('\\' :: 'u' :: e :: f :: g :: h :: i :: rest))
      else
        cons (charOf high) (read start (offset + 6) ('\\' :: 'u' :: e :: f :: g :: h :: i :: rest))
  | offset, '\\' :: 'u' :: a :: b :: c :: d :: e :: rest =>
    match codeUnit? a b c d with
    | none => broken .badCodeUnit (offset + 1)
    | some n => cons (charOf n) (read start (offset + 6) (e :: rest))
  | offset, '\\' :: 'u' :: _ => broken .badCodeUnit (offset + 1)
  | offset, '\\' :: c :: rest =>
    match unescape? c with
    | none => broken .badEscape offset
    | some plain => cons plain (read start (offset + 2) rest)
  | offset, c :: rest =>
    if c.toNat < 0x20 then broken .controlCharacter offset
    else cons c (read start (offset + 1) rest)

theorem length_rest_read_lt (start offset : Nat) (text : List Char) :
    (read start offset text).rest.length ≤ text.length - 1 := by
  fun_induction read start offset text <;> simp_all [broken, cons] <;> omega

end Literal

/-- The names of values. -/
def names : List (String × Value) := [
  ("null", .null), ("true", .bool true), ("false", .bool false), ("NaN", .real .nan),
  ("Infinity", .real (.infinite false)), ("-Infinity", .real (.infinite true))]

/-- A number without its sign and the number of its characters: digits with no zero in front, a
fraction and an exponent. -/
def unsigned? (negative : Bool) (text : List Char) : Option (Token × Nat) :=
  let whole := match text with
    | '0' :: _ => ['0']
    | _ => text.takeWhile Char.isDigit
  if whole.isEmpty then none
  else
    let afterWhole := text.drop whole.length
    let fraction := match afterWhole with
      | '.' :: digits => digits.takeWhile Char.isDigit
      | _ => []
    let fractionLength := if fraction.isEmpty then 0 else fraction.length + 1
    let afterFraction := afterWhole.drop fractionLength
    let (sign, digits) := match afterFraction with
      | e :: '-' :: digits => if e = 'e' || e = 'E' then ("-", digits.takeWhile Char.isDigit) else ("", [])
      | e :: '+' :: digits => if e = 'e' || e = 'E' then ("+", digits.takeWhile Char.isDigit) else ("", [])
      | e :: digits => if e = 'e' || e = 'E' then ("", digits.takeWhile Char.isDigit) else ("", [])
      | [] => ("", [])
    let exponentLength := if digits.isEmpty then 0 else digits.length + sign.length + 1
    if fractionLength = 0 && exponentLength = 0 then
      if Text.digitLimit < whole.length then some (.long whole.length, whole.length)
      else
        let n : Int := Text.decimal whole
        some (.scalar (.int (if negative then -n else n)), whole.length)
    else
      let exponent : Int := Text.decimal digits
      let x := Double.ofDecimal negative whole fraction (if sign = "-" then -exponent else exponent)
      some (.scalar (.real x), whole.length + fractionLength + exponentLength)

/-- A number and the number of its characters. -/
def number? : List Char → Option (Token × Nat)
  | '-' :: rest => (unsigned? true rest).map fun (token, length) => (token, length + 1)
  | text => unsigned? false text

/-- A name or number at the beginning of the text and the number of its characters. -/
def scalar? (text : List Char) : Option (Token × Nat) :=
  match names.find? fun (name, _) => name.toList.isPrefixOf text with
  | some (name, value) => some (.scalar value, name.length)
  | none => number? text

/-- Whether the character may stand between tokens. -/
def isSpace (c : Char) : Bool := c = ' ' || c = '\t' || c = '\n' || c = '\r'

/-- Whether the character is a token of its own. -/
def isMark (c : Char) : Bool :=
  c = '[' || c = ']' || c = '{' || c = '}' || c = ':' || c = ','

/-- The tokens of a text, the first character of which has the given offset. -/
def tokens (offset : Nat) : List Char → List (Nat × Token)
  | [] => []
  | c :: rest =>
    if isSpace c then tokens (offset + 1) rest
    else if isMark c then (offset, .mark c) :: tokens (offset + 1) rest
    else if c = '"' then
      let literal := Literal.read offset (offset + 1) rest
      (offset, .text (literal.content.map String.ofList)) ::
        tokens (offset + (c :: rest).length - literal.rest.length) literal.rest
    else
      match scalar? (c :: rest) with
      | none => [(offset, .junk)]
      | some (token, length) =>
        (offset, token) :: tokens (offset + length) (rest.drop (length - 1))
  termination_by text => text.length
  decreasing_by
  · simp
  · simp
  · have := Literal.length_rest_read_lt offset (offset + 1) rest
    simp only [List.length_cons]
    omega
  · simp only [List.length_drop, List.length_cons]
    omega

end Json
end SorobanLint
