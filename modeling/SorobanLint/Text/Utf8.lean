import SorobanLint.Text.Hex

/-!
# UTF-8

Texts are encoded as octets and decoded again, one octet at a time.  Decoding stops at the first
sequence that encodes no character, and tells which octets it has and what is wrong with them.
-/

namespace SorobanLint
namespace Utf8

/-- The octets of a character. -/
def encodeChar (c : Char) : List UInt8 :=
  let n := c.toNat
  let tail (shift : Nat) : UInt8 := UInt8.ofNat (0x80 + n / shift % 64)
  if n < 0x80 then [UInt8.ofNat n]
  else if n < 0x800 then [UInt8.ofNat (0xc0 + n / 64), tail 1]
  else if n < 0x10000 then [UInt8.ofNat (0xe0 + n / 4096), tail 64, tail 1]
  else [UInt8.ofNat (0xf0 + n / 262144), tail 4096, tail 64, tail 1]

/-- The octets of a text. -/
def encode (text : List Char) : List UInt8 :=
  text.flatMap encodeChar

/-- What is wrong with a sequence of octets. -/
inductive Defect where
  | badStart
  | badContinuation
  | cutShort
deriving DecidableEq, Repr

/-- A sequence of octets that encodes no character. -/
structure Fault where
  /-- What is wrong. -/
  defect : Defect
  /-- The first octet of the sequence. -/
  lead : Nat
  /-- The offset of the first octet. -/
  first : Nat
  /-- The offset of the last octet. -/
  last : Nat
deriving DecidableEq, Repr

namespace Fault

/-- The fault in words. -/
def message (fault : Fault) : String :=
  let octets :=
    if fault.first = fault.last then
      let lead := String.ofList (Text.hexDigits 2 fault.lead)
      s!"byte 0x{lead} in position {fault.first}"
    else s!"bytes in position {fault.first}-{fault.last}"
  let defect := match fault.defect with
    | .badStart => "invalid start byte"
    | .badContinuation => "invalid continuation byte"
    | .cutShort => "unexpected end of data"
  s!"'utf-8' codec can't decode {octets}: {defect}"

end Fault

/-- A character of which some octets are read. -/
structure Partial where
  /-- The first octet. -/
  lead : Nat
  /-- The offset of the first octet. -/
  first : Nat
  /-- The bits read so far. -/
  bits : Nat
  /-- The number of octets to come. -/
  owed : Nat
  /-- The least octet that may come next. -/
  low : Nat
  /-- The greatest octet that may come next. -/
  high : Nat
deriving DecidableEq, Repr

namespace Partial

/-- A character whose first octet is read at an offset; nothing if none begins with it.  The
bounds exclude overlong sequences, surrogates and numbers that are no code points. -/
def begin? (lead first : Nat) : Option Partial :=
  if 0xc2 ≤ lead && lead ≤ 0xdf then some ⟨lead, first, lead - 0xc0, 1, 0x80, 0xbf⟩
  else if lead = 0xe0 then some ⟨lead, first, 0, 2, 0xa0, 0xbf⟩
  else if lead = 0xed then some ⟨lead, first, 0xd, 2, 0x80, 0x9f⟩
  else if 0xe1 ≤ lead && lead ≤ 0xef then some ⟨lead, first, lead - 0xe0, 2, 0x80, 0xbf⟩
  else if lead = 0xf0 then some ⟨lead, first, 0, 3, 0x90, 0xbf⟩
  else if lead = 0xf4 then some ⟨lead, first, 4, 3, 0x80, 0x8f⟩
  else if 0xf1 ≤ lead && lead ≤ 0xf3 then some ⟨lead, first, lead - 0xf0, 3, 0x80, 0xbf⟩
  else none

/-- The bits with those of one more octet. -/
def extend (part : Partial) (octet : Nat) : Nat :=
  part.bits * 64 + (octet - 0x80)

end Partial

/-- Decode octets from an offset on, the first of which may belong to a character that is read in
part. -/
def decodeFrom (pending : Option Partial) (offset : Nat) :
    List UInt8 → Except Fault (List Char)
  | [] =>
    match pending with
    | none => .ok []
    | some part => .error ⟨.cutShort, part.lead, part.first, offset - 1⟩
  | octet :: rest =>
    let b := octet.toNat
    match pending with
    | none =>
      if b < 0x80 then (decodeFrom none (offset + 1) rest).map (Char.ofNat b :: ·)
      else
        match Partial.begin? b offset with
        | none => .error ⟨.badStart, b, offset, offset⟩
        | some part => decodeFrom (some part) (offset + 1) rest
    | some part =>
      if b < part.low || part.high < b then
        .error ⟨.badContinuation, part.lead, part.first, offset - 1⟩
      else if part.owed ≤ 1 then
        (decodeFrom none (offset + 1) rest).map (Char.ofNat (part.extend b) :: ·)
      else
        let more := { part with bits := part.extend b, owed := part.owed - 1, low := 0x80, high := 0xbf }
        decodeFrom (some more) (offset + 1) rest

/-- Decode octets as a text. -/
def decode (octets : List UInt8) : Except Fault (List Char) :=
  decodeFrom none 0 octets

end Utf8
end SorobanLint
