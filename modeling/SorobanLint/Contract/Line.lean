import SorobanLint.Attribute
import SorobanLint.Mask

/-!
# Numbered source lines

A source line keeps its number, its text and its masked text together.  Declarations are read from
a run of such lines, the first of which is cut at the column of the header.
-/

namespace SorobanLint

open Text

/-- A line of a source. -/
structure Line where
  /-- The number of the line, from 1. -/
  number : Nat
  /-- The text of the line. -/
  raw : List Char
  /-- The text with comments and the contents of literals blanked out. -/
  code : List Char
deriving DecidableEq, Repr

namespace Line

/-- Lines with their masked texts, numbered upwards from the given number. -/
def numberFrom : Nat → List (List Char) → List (List Char) → List Line
  | n, raw :: raws, code :: codes => ⟨n, raw, code⟩ :: numberFrom (n + 1) raws codes
  | _, _, _ => []

/-- The lines of a source with their numbers and masked texts. -/
def ofTexts (lines : List (List Char)) : List Line :=
  numberFrom 1 lines (mask lines)

/-- The masked line from the column on at which `rest`, its end without the blanks behind it,
begins. -/
def codeFrom (line : Line) (rest : List Char) : List Char :=
  line.code.drop ((trimEnd line.code).length - rest.length)

/-- The masked text of the line behind its attributes; nothing while an attribute is open. -/
def item (line : Line) : List Char :=
  Attribute.behind line.code

/-- A header and the masked lines below it as one text. -/
def codeText (header : List Char) (later : List Line) : List Char :=
  joinLines (header :: later.map (·.code))

/-- The texts of the first lines, up to the one with the given index. -/
def rawThrough (lines : List Line) (last : Nat) : String :=
  String.ofList (joinLines ((lines.map (·.raw)).take (last + 1)))

end Line
end SorobanLint
