import SorobanLint.Rule.Basic

/-!
# Expensive string operations

Lines that build strings on the heap by conversion, formatting or concatenation.
-/

namespace SorobanLint
namespace StringBuilding

/-- The operations that build strings, with their names. -/
def operations : List (Pattern × String) := [
  (.all [".", .spaces, "to_string", .spaces, "(", .spaces, ")"], ".to_string()"),
  (.all [.edge, "String", .spaces, "::", .spaces, "from", .spaces, "("], "String::from"),
  (.all [.edge, "format!", .spaces, "("], "format!"),
  (.all [".", .spaces, "push_str", .spaces, "("], "push_str"),
  (.all ["+", .spaces, "&", .spaces, .word], "string concatenation")]

/-- The names of the operations on a line. -/
def operationsOn (line : List Char) : List String :=
  (operations.filter fun (pattern, _) => pattern.occursIn line).map (·.2)

/-- The finding about a line of a function, if there is an operation on it. -/
def lineFinding? (function : Function) (index : Nat) (line : List Char) : Option Finding :=
  match operationsOn line with
  | [] => none
  | names => some {
      description :=
        let list := ", ".intercalate names
        s!"Heap-allocating string operation ({list}) in '{function.name}'"
      line := function.line + index
      variableName := function.name
      suggestion := "Use Symbol / symbol_short! or soroban_sdk::String::from_str(&env, ..) " ++
        "instead of std String building" }

/-- The findings about the lines of a function, the first of which has the given index. -/
def lineFindings (function : Function) : Nat → List (List Char) → List Finding
  | _, [] => []
  | index, line :: rest =>
    (lineFinding? function index line).toList ++ lineFindings function (index + 1) rest

/-- The findings about all functions. -/
def findings (contract : Contract) : List Finding :=
  contract.functions.flatMap fun function => lineFindings function 0 function.codeLines

end StringBuilding
end SorobanLint
