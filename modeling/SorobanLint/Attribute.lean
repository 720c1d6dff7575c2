import SorobanLint.Text.Blank
import SorobanLint.Text.Word

/-!
# Attributes

Attributes `#[…]` and `#![…]` stand in front of an item.  Peeling takes them off the beginning of a
line of masked code and keeps the last segment of each path, which is the marker's name.
-/

namespace SorobanLint

open Text

/-- A line of code without the attributes at its beginning. -/
structure Peeled where
  /-- The names of the attributes, in order. -/
  names : List (List Char)
  /-- The code behind the attributes; nothing while an attribute is open. -/
  rest : List Char
  /-- Whether the last attribute is complete. -/
  closed : Bool
deriving DecidableEq, Repr

namespace Attribute

/-- The segments of a path between its double colons. -/
def segments : List Char → List (List Char)
  | [] => [[]]
  | [c] => [[c]]
  | c :: d :: rest =>
    if c = ':' && d = ':' then [] :: segments rest else consFirst c (segments (d :: rest))

/-- The last segment of a path. -/
def lastSegment (path : List Char) : List Char :=
  (segments path).getLastD []

/-- The name of an attribute whose text behind the opening bracket is given: the last segment of
the path at its beginning. -/
def name? (text : List Char) : Option (List Char) :=
  let path := (trimStart text).takeWhile fun c => isWord c || c = ':'
  if path.isEmpty then none else some (lastSegment path)

/-- The text behind the opening bracket of an attribute that the line begins with. -/
def inside? : List Char → Option (List Char)
  | '#' :: '[' :: text => some text
  | '#' :: '!' :: '[' :: text => some text
  | _ => none

/-- Peel the attributes; `depth` is `none` between attributes, and inside one the number of square
brackets open there. -/
def peelFrom : Option Nat → List Char → Peeled
  | none, [] => ⟨[], [], true⟩
  | some _, [] => ⟨[], [], false⟩
  | none, c :: rest =>
    if isBlank c then peelFrom none rest
    else
      match inside? (c :: rest) with
      | none => ⟨[], c :: rest, true⟩
      | some text =>
        let tail := peelFrom (some 0) rest
        { tail with names := (name? text).toList ++ tail.names }
  | some depth, c :: rest =>
    if c = '[' then peelFrom (some (depth + 1)) rest
    else if c = ']' then peelFrom (if depth ≤ 1 then none else some (depth - 1)) rest
    else peelFrom (some depth) rest

/-- Take the attributes off the beginning of a line of code. -/
def peel (code : List Char) : Peeled :=
  peelFrom none code

/-- The code behind the attributes at the beginning of a line; nothing while one is open. -/
def behind (code : List Char) : List Char :=
  (peel (trim code)).rest

end Attribute
end SorobanLint
