import SorobanLint.Rule.Basic
import SorobanLint.Rule.Binding

/-!
# Vectors without capacity

A vector that begins empty and is pushed to later in the function grows step by step.
-/

namespace SorobanLint
namespace EmptyVec

/-- An empty vector. -/
def emptyVec : Pattern :=
  .alt
    (.all [.edge, "Vec", .spaces, "::", .spaces, "new", .spaces, "(", .spaces, ")"])
    (.all [.edge, "vec!", .spaces, "[", .spaces, "]"])

/-- A call that pushes. -/
def push : Pattern :=
  .all [".", .spaces, "push", .maybe "_back", .spaces, "("]

/-- One finding for each empty vector with a push somewhere behind it. -/
def functionFindings (function : Function) : List Finding :=
  let grown := (emptyVec.findAll function.code).filter fun found => push.occursIn found.stop.after
  grown.map fun found => {
    description := s!"Empty std Vec in '{function.name}' is grown with push()"
    line := function.lineAt found.start
    variableName := match found.start.binding? with
      | some binding => String.ofList binding.captured
      | none => ""
    suggestion := "Use Vec::with_capacity(n) or soroban_sdk::Vec::new(&env)" }

/-- The findings about all functions. -/
def findings (contract : Contract) : List Finding :=
  contract.functions.flatMap functionFindings

end EmptyVec
end SorobanLint
