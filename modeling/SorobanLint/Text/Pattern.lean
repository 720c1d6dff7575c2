import SorobanLint.Text.Lines
import SorobanLint.Text.Word

/-!
# Text patterns

A pattern read from a place of a text stops at zero or more later places, listed in order of
preference (`Pattern.ends`).  The first of them is the match at that place; `search?` takes the
match at the leftmost place that has one, and `findAll` the matches from left to right, none of
which begins inside the one before it.
-/

namespace SorobanLint

open Text

/-- A place between two characters of a text. -/
structure Place where
  /-- The characters before the place, nearest first. -/
  before : List Char
  /-- The characters after the place. -/
  after : List Char
deriving DecidableEq, Repr

namespace Place

/-- The place before the first character. -/
def start (text : List Char) : Place := ⟨[], text⟩

/-- The number of characters before the place. -/
def offset (place : Place) : Nat := place.before.length

/-- The number of line feeds before the place. -/
def line (place : Place) : Nat := lineFeeds place.before

/-- The text before the place. -/
def textBefore (place : Place) : List Char := place.before.reverse

/-- The text between the last line feed before the place and the place. -/
def lineBefore (place : Place) : List Char :=
  (place.before.takeWhile (· ≠ '\n')).reverse

/-- The text from one place to a later one. -/
def upTo (place stop : Place) : List Char :=
  place.after.take (stop.offset - place.offset)

/-- Whether exactly one of the two neighbouring characters belongs to a word. -/
def atWordEdge (place : Place) : Bool :=
  place.before.head?.any isWord != place.after.head?.any isWord

/-- The place behind the given text, if that text comes next. -/
def pass? : List Char → Place → Option Place
  | [], place => some place
  | c :: cs, ⟨before, d :: rest⟩ => if c = d then pass? cs ⟨d :: before, rest⟩ else none
  | _ :: _, ⟨_, []⟩ => none

/-- The places behind 0, 1, 2, … characters in `p`. -/
def run (p : Char → Bool) : List Char → List Char → List Place
  | before, [] => [⟨before, []⟩]
  | before, c :: rest =>
    ⟨before, c :: rest⟩ :: if p c then run p (c :: before) rest else []

end Place

/-- A pattern over texts. -/
inductive Pattern where
  /-- The given characters. -/
  | text (chars : List Char)
  /-- One character in `p`. -/
  | one (p : Char → Bool)
  /-- Characters in `p`, preferably many. -/
  | many (p : Char → Bool)
  /-- Characters in `p`, preferably few. -/
  | few (p : Char → Bool)
  /-- One pattern behind the other. -/
  | seq (first second : Pattern)
  /-- Either pattern, preferably the first. -/
  | alt (first second : Pattern)
  /-- The pattern any number of times, preferably often. -/
  | star (body : Pattern)
  /-- A place with a word on exactly one side. -/
  | edge
  /-- A place whose preceding character, if there is one, is not in `p`. -/
  | notAfter (p : Char → Bool)
  /-- The beginning of the text. -/
  | first
  /-- The end of the text. -/
  | last
  /-- The pattern, whose text the match records. -/
  | capture (body : Pattern)

/-- How far a pattern has come, and the text recorded on the way. -/
structure Reach where
  /-- Where the pattern stops. -/
  place : Place
  /-- The bounds of the recorded text. -/
  group : Option (Place × Place)

namespace Reach

/-- All places reached by at most the given number of steps, more steps first. -/
def iterate (step : Reach → List Reach) : Nat → Reach → List Reach
  | 0, reach => [reach]
  | n + 1, reach => (step reach).flatMap (iterate step n) ++ [reach]

end Reach

/-- A stretch of a text that a pattern matches. -/
structure Match where
  /-- Where the stretch begins. -/
  start : Place
  /-- Where the stretch ends. -/
  stop : Place
  /-- The bounds of the recorded text. -/
  group : Option (Place × Place)

namespace Match

/-- The recorded text. -/
def captured (found : Match) : List Char :=
  match found.group with
  | some (start, stop) => start.upTo stop
  | none => []

end Match

namespace Pattern

instance : Coe String Pattern := ⟨fun s => .text s.toList⟩

/-- The patterns one behind the other. -/
def all (parts : List Pattern) : Pattern :=
  parts.foldr .seq (.text [])

/-- One of the texts, preferably an earlier one. -/
def oneOf : List String → Pattern
  | [] => .one fun _ => false
  | [s] => .text s.toList
  | s :: rest => .alt (.text s.toList) (oneOf rest)

/-- The pattern or nothing, preferably the pattern. -/
def maybe (body : Pattern) : Pattern := .alt body (.text [])

/-- At least one character in `p`, preferably many. -/
def atLeastOne (p : Char → Bool) : Pattern := .seq (.one p) (.many p)

/-- Blanks, or none. -/
def spaces : Pattern := .many isBlank

/-- At least one blank. -/
def gap : Pattern := .atLeastOne isBlank

/-- A run of word characters. -/
def word : Pattern := .atLeastOne isWord

/-- The text as a word or words of its own. -/
def whole (chars : List Char) : Pattern := .all [.edge, .text chars, .edge]

/-- Where the pattern stops when it is read from a place, in order of preference. -/
def ends : Pattern → Reach → List Reach
  | .text chars => fun reach =>
    match reach.place.pass? chars with
    | some place => [{ reach with place }]
    | none => []
  | .one p => fun reach =>
    match reach.place with
    | ⟨_, []⟩ => []
    | ⟨before, c :: rest⟩ => if p c then [{ reach with place := ⟨c :: before, rest⟩ }] else []
  | .many p => fun reach =>
    (Place.run p reach.place.before reach.place.after).reverse.map fun place => { reach with place }
  | .few p => fun reach =>
    (Place.run p reach.place.before reach.place.after).map fun place => { reach with place }
  | .seq p q => fun reach => (ends p reach).flatMap (ends q)
  | .alt p q => fun reach => ends p reach ++ ends q reach
  | .star body => fun reach => Reach.iterate (ends body) reach.place.after.length reach
  | .edge => fun reach => if reach.place.atWordEdge then [reach] else []
  | .notAfter p => fun reach => if reach.place.before.head?.any p then [] else [reach]
  | .first => fun reach => if reach.place.before.isEmpty then [reach] else []
  | .last => fun reach => if reach.place.after.isEmpty then [reach] else []
  | .capture body => fun reach =>
    (ends body reach).map fun stop => { stop with group := some (reach.place, stop.place) }

/-- The preferred match that begins at the place. -/
def matchAt? (pattern : Pattern) (place : Place) : Option Match :=
  (pattern.ends ⟨place, none⟩).head?.map fun reach => ⟨place, reach.place, reach.group⟩

/-- The preferred match at the beginning of the text. -/
def match? (pattern : Pattern) (text : List Char) : Option Match :=
  pattern.matchAt? (.start text)

/-- The leftmost match at or behind a place. -/
def searchFrom? (pattern : Pattern) : List Char → List Char → Option Match
  | before, [] => pattern.matchAt? ⟨before, []⟩
  | before, c :: rest =>
    match pattern.matchAt? ⟨before, c :: rest⟩ with
    | some found => some found
    | none => searchFrom? pattern (c :: before) rest

/-- The leftmost match in the text. -/
def search? (pattern : Pattern) (text : List Char) : Option Match :=
  pattern.searchFrom? [] text

/-- Whether the text begins with a match. -/
def isHeadOf (pattern : Pattern) (text : List Char) : Bool :=
  (pattern.match? text).isSome

/-- Whether the pattern matches anywhere in the text. -/
def occursIn (pattern : Pattern) (text : List Char) : Bool :=
  (pattern.search? text).isSome

/-- The matches behind a place, the first `skip` characters of which are already taken. -/
def findFrom (pattern : Pattern) : Nat → List Char → List Char → List Match
  | _, _, [] => []
  | skip + 1, before, c :: rest => findFrom pattern skip (c :: before) rest
  | 0, before, c :: rest =>
    match pattern.matchAt? ⟨before, c :: rest⟩ with
    | some found =>
      found :: findFrom pattern (found.stop.offset - found.start.offset - 1) (c :: before) rest
    | none => findFrom pattern 0 (c :: before) rest

/-- The matches from left to right that do not overlap, for patterns that match no empty text. -/
def findAll (pattern : Pattern) (text : List Char) : List Match :=
  pattern.findFrom 0 [] text

/-- The text before the leftmost match, or all of it. -/
def textBefore (pattern : Pattern) (text : List Char) : List Char :=
  match pattern.search? text with
  | some found => found.start.textBefore
  | none => text

end Pattern
end SorobanLint
