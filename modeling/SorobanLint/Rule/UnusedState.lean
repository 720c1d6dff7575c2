import SorobanLint.Bracket.Group
import SorobanLint.Bracket.Split
import SorobanLint.Rule.Basic

/-!
# Unused state variables

A field counts as used when some function reads or writes it through an instance, as in
`self.field`, or names it as a shorthand key of a struct literal, as in `Self { field }`.  An
explicit initialiser `field: value` alone is no use.
-/

namespace SorobanLint
namespace UnusedState

open Text

/-- The names of instances through which a field is accessed. -/
def instances : List String := ["self", "state", "contract"]

/-- An access to a field through an instance. -/
def access (field : List Char) : Pattern :=
  .all [.edge, .oneOf instances, .spaces, ".", .spaces, .text field, .edge]

/-- The beginning of a literal of the struct, up to its brace. -/
def literal (struct : List Char) : Pattern :=
  .all [.edge, .alt "Self" (.text struct), .spaces, "\x7b"]

/-- Whether an arrow stands in front of the place, so that a return type follows. -/
def behindArrow (place : Place) : Bool :=
  match place.before.dropWhile isBlank with
  | '>' :: '-' :: _ => true
  | _ => false

/-- Whether the struct literal that was found names the field as a shorthand key. -/
def hasShorthand (field : List Char) (found : Match) : Bool :=
  !behindArrow found.start &&
    match Bracket.closeBrace? 0 found.stop.after with
    | some (inner, _) => (Bracket.splitCommas inner).contains field
    | none => false

/-- Whether a function's code uses a field of the struct. -/
def isUsed (struct field code : List Char) : Bool :=
  (access field).occursIn code || ((literal struct).findAll code).any (hasShorthand field)

/-- One finding for each field that no function uses. -/
def findings (contract : Contract) : List Finding :=
  let codes := contract.functions.map (·.code)
  contract.types.flatMap fun struct =>
    let unused := struct.fields.filter fun field =>
      !codes.any (isUsed struct.name.toList field.name.toList)
    unused.map fun field => {
      description :=
        s!"State variable '{field.name}' of '{struct.name}' is never used by any contract function"
      line := field.line
      variableName := field.name
      suggestion := s!"Remove '{field.name}' to reduce storage footprint and ledger rent" }

end UnusedState
end SorobanLint
