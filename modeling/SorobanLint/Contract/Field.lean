import SorobanLint.Attribute
import SorobanLint.Bracket.Split
import SorobanLint.Contract.Basic
import SorobanLint.Text.Lines

/-!
# Fields

A field is written `pub name: Type`, with attributes in front and a comma or semicolon behind;
without `pub` it is private.
-/

namespace SorobanLint

open Text

namespace Field

/-- The declaration in a piece of text, without comment, attributes and closing punctuation. -/
def declaration (text : List Char) : List Char :=
  let bare := (Attribute.peel (trim (Text.upTo ['/', '/'] text))).rest
  trim (dropEndWhile (fun c => c = ',' || c = ';') (trim bare))

/-- Read a field from a piece of text; nothing if the text has another shape. -/
def parse? (text : List Char) (line : Int) : Option Field :=
  let (visibility, rest) := Visibility.split (declaration text)
  let name := trim (rest.takeWhile (· ≠ ':'))
  match rest.dropWhile (· ≠ ':') with
  | [] => none
  | _ :: behind =>
    let typeName := squeeze behind
    if behind.head? = some ':' || typeName.isEmpty || !isIdentifier name then none
    else some ⟨String.ofList name, String.ofList typeName, visibility, line⟩

/-- Read the fields between the commas of a struct's body, whose slices are given; the first
slice begins on the given line.  A field stands on the line of its first character. -/
def readFrom : Nat → List (List Char) → List Field
  | _, [] => []
  | line, slice :: rest =>
    let lead := slice.takeWhile isBlank
    (parse? slice ((line + lineFeeds lead : Nat) : Int)).toList ++
      readFrom (line + lineFeeds slice) rest

/-- Read the fields of a struct's body, which begins on the given line. -/
def readAll (line : Nat) (body : List Char) : List Field :=
  readFrom line (Bracket.slices (· = ',') body)

end Field
end SorobanLint
