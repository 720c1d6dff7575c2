import SorobanLint.Rule.Basic

/-!
# Types that cost too much

Two checks flag the fields and parameters whose declared type matches a pattern: wide integers and
owned strings.
-/

namespace SorobanLint

/-- A pattern for types, with the reason to avoid them. -/
structure TypeCheck where
  /-- What the types to avoid look like. -/
  pattern : Pattern
  /-- Why they are to be avoided. -/
  subject : String
  /-- What to use instead. -/
  suggestion : String

namespace TypeCheck

open Text

/-- Integers of 128 and 256 bits. -/
def wideIntegers : TypeCheck where
  pattern := .all [.edge, .oneOf ["u128", "i128", "u256", "i256", "U256", "I256"], .edge]
  subject := "128/256-bit integers are more expensive to store and process"
  suggestion := "Use u64 or u32 when the value range allows it"

/-- Strings that can grow. -/
def ownedStrings : TypeCheck where
  pattern := .all [
    .notAfter fun c => isWord c || c = ':',
    .maybe (.oneOf ["soroban_sdk::", "std::string::"]),
    "String",
    .edge]
  subject := "a growable String where a short Symbol would do"
  suggestion := "Use soroban_sdk::Symbol (symbol_short!) for short, fixed identifiers"

/-- Whether a declared type is to be avoided. -/
def flags (check : TypeCheck) (typeName : String) : Bool :=
  check.pattern.occursIn typeName.toList

/-- One finding for each field of a struct with such a type. -/
def fieldFindings (check : TypeCheck) (struct : Struct) : List Finding :=
  (struct.fields.filter fun field => check.flags field.typeName).map fun field => {
    description :=
      s!"Field '{field.name}' of '{struct.name}' is declared as {field.typeName}: {check.subject}"
    line := field.line
    variableName := field.name
    suggestion := check.suggestion }

/-- One finding for each parameter of a function with such a type. -/
def paramFindings (check : TypeCheck) (function : Function) : List Finding :=
  (function.params.filter fun param => check.flags param.typeName).map fun param => {
    description :=
      s!"Parameter '{param.name}' of '{function.name}' is declared as {param.typeName}: " ++
        check.subject
    line := function.paramLine param
    variableName := param.name
    suggestion := check.suggestion }

/-- The findings about fields, and behind them those about parameters. -/
def findings (check : TypeCheck) (contract : Contract) : List Finding :=
  contract.types.flatMap check.fieldFindings ++ contract.functions.flatMap check.paramFindings

end TypeCheck
end SorobanLint
