import SorobanLint.Bracket.Group
import SorobanLint.Contract.Fault
import SorobanLint.Contract.Field
import SorobanLint.Contract.Line

/-!
# Structs

A struct is read from its header on: its fields stand in braces, or it ends with a semicolon, in
front of which a tuple may stand.
-/

namespace SorobanLint

open Text

namespace Struct

/-- A struct's header, which records the name. -/
def header : Pattern :=
  .all [.maybe Visibility.mark, "struct", .gap, .capture (.seq (.one isIdentStart) (.many isWord))]

/-- The fields of a struct and the number of line feeds up to its end, given the text behind its
name, which begins on the given line. -/
def body (text : List Char) (line : Nat) : Except StructureFault (List Field × Nat) :=
  match Bracket.firstOutsideAngles? (fun c => c = '{' || c = ';' || c = '(') 0 none text with
  | none => .error (.openHeader "\x7b;(" line)
  | some (before, opener, after) =>
    let first := line + lineFeeds before
    if opener = '{' then
      match Bracket.closeBrace? 0 after with
      | none => .error (.openBlock first)
      | some (inner, _) => .ok (Field.readAll first inner, lineFeeds before + lineFeeds inner)
    else if opener = '(' then
      match Bracket.firstOutsideAngles? (· = ';') 0 none after with
      | none => .error (.openHeader ";" first)
      | some (tuple, _, _) => .ok ([], lineFeeds before + lineFeeds tuple)
    else .ok ([], lineFeeds before)

/-- Read the struct whose header was found in `text`, the end of the first line; also the index of
its last line. -/
def read (text : List Char) (found : Match) (first : Line) (later : List Line) :
    Except StructureFault (Struct × Nat) := do
  let rest := Line.codeText (text.drop found.stop.offset) later
  let (fields, last) ← body rest first.number
  return ({
    name := String.ofList found.captured
    fields
    line := first.number
    definition := Line.rawThrough (first :: later) last }, last)

end Struct
end SorobanLint
