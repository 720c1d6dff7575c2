/-!
# Positions in a YAML text

A cursor is a position in a text with its line and column.  Line breaks are line feed, next line,
and the line and paragraph separators; a text is read with its carriage returns normalised.
-/

namespace SorobanLint
namespace Yaml

/-- Whether the character ends a line. -/
def isBreak (c : Char) : Bool :=
  c = '\n' || c = '\u0085' || c = '\u2028' || c = '\u2029'

/-- Whether the character is a space or a tab. -/
def isSpace (c : Char) : Bool := c = ' ' || c = '\t'

/-- Whether a token is complete in front of the character, or at the end of the text. -/
def isBoundary (next : Option Char) : Bool :=
  next.all fun c => isSpace c || isBreak c

/-- A line break as it appears in the content of a scalar. -/
def contentBreak (c : Char) : Char :=
  if c = '\u0085' then '\n' else c

/-- Whether the text begins with a document separator. -/
def isSeparator : List Char → Bool
  | a :: b :: c :: rest => a = b && b = c && (a = '-' || a = '.') && isBoundary rest.head?
  | _ => false

/-- The characters that names and tags are made of. -/
def isNameChar (c : Char) : Bool := c.isAlphanum || c = '-' || c = '_'

/-- A position in a text. -/
structure Cursor where
  /-- The text behind the position. -/
  rest : List Char
  /-- The number of characters in front of it. -/
  index : Nat
  /-- The number of line breaks in front of it. -/
  line : Nat
  /-- The number of characters in front of it on its line. -/
  column : Nat

namespace Cursor

/-- The position in front of a text. -/
def start (text : List Char) : Cursor := ⟨text, 0, 0, 0⟩

/-- The character behind the position. -/
def peek (cursor : Cursor) : Option Char := cursor.rest.head?

/-- The position so many characters further on; a byte order mark takes no column. -/
def skip : Nat → Cursor → Cursor
  | n + 1, ⟨c :: rest, index, line, column⟩ =>
    if isBreak c then skip n ⟨rest, index + 1, line + 1, 0⟩
    else skip n ⟨rest, index + 1, line, if c = '\ufeff' then column else column + 1⟩
  | _, cursor => cursor

/-- The position at which the given rest of the text begins. -/
def skipTo (cursor : Cursor) (rest : List Char) : Cursor :=
  cursor.skip (cursor.rest.length - rest.length)

/-- The position behind the spaces that come next. -/
def skipSpaces (cursor : Cursor) : Cursor :=
  cursor.skip (cursor.rest.takeWhile (· = ' ')).length

/-- The position in front of the next line break, or at the end. -/
def skipLine (cursor : Cursor) : Cursor :=
  cursor.skip (cursor.rest.takeWhile (!isBreak ·)).length

/-- The position behind spaces, a comment perhaps, and the line break or end of the text that
must follow. -/
def finishLine? (cursor : Cursor) : Option Cursor :=
  let cursor := cursor.skipSpaces
  let cursor := if cursor.peek = some '#' then cursor.skipLine else cursor
  match cursor.peek with
  | none => some cursor
  | some c => if isBreak c then some (cursor.skip 1) else none

end Cursor
end Yaml
end SorobanLint
