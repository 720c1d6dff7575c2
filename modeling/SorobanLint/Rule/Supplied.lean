import SorobanLint.Language
import SorobanLint.Rule.Catalog
import SorobanLint.Text.Quoted
import SorobanLint.Value.Basic

/-!
# Supplied rules

Rules that a caller supplies beside the catalog, and the severities and languages that a caller
asks for by name.
-/

namespace SorobanLint

namespace Severity

/-- The severity with the given name, or an error in words. -/
def named (name : String) : Except String Severity :=
  match ofName? name with
  | some severity => .ok severity
  | none => .error (Text.quoted name ++ " is not a valid Severity")

end Severity

namespace Language

/-- The language with the given name, or an error in words. -/
def named (name : String) : Except String Language :=
  match ofName? name with
  | some language => .ok language
  | none => .error (Text.quoted name ++ " is not a valid Language")

end Language

namespace Rule

/-- The severity that a rule is given by name; the default if there is no name or an empty one. -/
def severityOf (name : Option String) (default : Severity) : Except String Severity :=
  match name with
  | none => .ok default
  | some name => if name = "" then .ok default else Severity.named name

/-- A rule that a caller supplies. -/
def supplied (id : String) (severity : Severity) (enabled : Bool)
    (apply : Contract → Option (List Violation)) : Rule :=
  ⟨id, "Stub", "", "Stub", severity, enabled, apply⟩

/-- A supplied rule that always fails. -/
def failing (id : String) (severity : Severity) (enabled : Bool) : Rule :=
  supplied id severity enabled fun _ => none

/-- A supplied rule that always returns the given violations. -/
def emitting (id : String) (severity : Severity) (enabled : Bool) (violations : List Violation) :
    Rule :=
  supplied id severity enabled fun _ => some violations

/-- The text under a key of a record, or the default if there is none; nothing if the value there is
no text. -/
def textIn? (record : Value) (key : String) (default : Option String) : Option String :=
  match record.get? key with
  | none => default
  | some (.string s) => some s
  | some _ => none

/-- The line that a value stands for in a source with so many lines; a number of double precision
can only be a line outside the source. -/
def lineOf? (count : Nat) : Value → Option Int
  | .int n => some n
  | .bool b => some (if b then 1 else 0)
  | .real x => x.toInt?.filter fun n => n < 1 || (count : Int) < n
  | _ => none

/-- The finding that a record stands for in a source with so many lines. -/
def findingOf? (count : Nat) (record : Value) : Option Finding := do
  let description ← textIn? record "description" none
  let line ← (record.get? "line_number").bind (lineOf? count)
  let variableName ← textIn? record "variable_name" (some "")
  let suggestion ← textIn? record "suggestion" (some "")
  return ⟨description, line, variableName, suggestion⟩

/-- A supplied rule that always has the findings of the given records, and fails if one of them is
none. -/
def finding (id : String) (severity : Severity) (enabled : Bool) (records : List Value) : Rule :=
  supplied id severity enabled fun contract =>
    (records.mapM (findingOf? (Text.linesOf contract.source).length)).map
      (report id severity contract)

end Rule
end SorobanLint
