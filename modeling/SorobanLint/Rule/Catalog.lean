import SorobanLint.Rule.EmptyVec
import SorobanLint.Rule.RepeatedStorage
import SorobanLint.Rule.StringBuilding
import SorobanLint.Rule.TypePattern
import SorobanLint.Rule.UnboundedLoop
import SorobanLint.Rule.UnusedState

/-!
# The catalog

The seven checks of the default catalog, in the order in which they are run.
-/

namespace SorobanLint

/-- A check of the default catalog. -/
inductive Check where
  | unusedState
  | wideIntegers
  | ownedStrings
  | repeatedStorage
  | unboundedLoop
  | stringBuilding
  | emptyVec
deriving DecidableEq, Repr

namespace Check

/-- All checks, in the order in which they are run. -/
def all : List Check :=
  [unusedState, wideIntegers, ownedStrings, repeatedStorage, unboundedLoop, stringBuilding,
    emptyVec]

/-- The id of the check's rule. -/
def id : Check → String
  | unusedState => "soroban-unused-state-variables"
  | wideIntegers => "soroban-inefficient-integers"
  | ownedStrings => "soroban-string-over-symbol"
  | repeatedStorage => "soroban-repeated-storage-access"
  | unboundedLoop => "soroban-unbounded-loop"
  | stringBuilding => "soroban-expensive-strings"
  | emptyVec => "soroban-vec-without-capacity"

/-- The name of the check's rule for people. -/
def name : Check → String
  | unusedState => "Unused State Variables"
  | wideIntegers => "Inefficient Integer Types"
  | ownedStrings => "String Instead Of Symbol"
  | repeatedStorage => "Repeated Storage Access"
  | unboundedLoop => "Unbounded Loop"
  | stringBuilding => "Expensive String Operations"
  | emptyVec => "Vec Without Capacity"

/-- The name of the check's kind of rule. -/
def label : Check → String
  | unusedState => "UnusedStateVariablesRule"
  | wideIntegers => "InefficientIntegersRule"
  | ownedStrings => "StringOverSymbolRule"
  | repeatedStorage => "RepeatedStorageAccessRule"
  | unboundedLoop => "UnboundedLoopRule"
  | stringBuilding => "ExpensiveStringOperationsRule"
  | emptyVec => "VecWithoutCapacityRule"

/-- The severity of the check's findings unless another is configured. -/
def defaultSeverity : Check → Severity
  | unusedState => .warning
  | wideIntegers => .info
  | ownedStrings => .info
  | repeatedStorage => .warning
  | unboundedLoop => .warning
  | stringBuilding => .info
  | emptyVec => .info

/-- What the check is about. -/
def description : Check → String
  | unusedState =>
    "State variables that are never read or written waste storage and ledger rent."
  | wideIntegers =>
    "128/256-bit integers cost more storage and host-function work than narrower types."
  | ownedStrings =>
    "Owned String values are heap-allocated; short identifiers fit in a Symbol."
  | repeatedStorage =>
    "Each storage read is metered; read once and reuse the local value."
  | unboundedLoop =>
    "Loops over caller-controlled collections can exhaust the instruction budget."
  | stringBuilding =>
    "std String building allocates on the heap and inflates instruction cost."
  | emptyVec =>
    "Growing a std Vec from empty reallocates as it grows."

/-- What the check finds in a contract. -/
def findings : Check → Contract → List Finding
  | unusedState => UnusedState.findings
  | wideIntegers => TypeCheck.wideIntegers.findings
  | ownedStrings => TypeCheck.ownedStrings.findings
  | repeatedStorage => RepeatedStorage.findings
  | unboundedLoop => UnboundedLoop.findings
  | stringBuilding => StringBuilding.findings
  | emptyVec => EmptyVec.findings

/-- The check with the given id. -/
def ofId? (id : String) : Option Check :=
  all.find? fun check => check.id = id

/-- The rule of a check with the given severity and switch. -/
def rule (check : Check) (severity : Severity) (enabled : Bool) : Rule where
  id := check.id
  name := check.name
  description := check.description
  label := check.label
  severity
  enabled
  apply := fun contract =>
    some (Rule.report check.id severity contract (check.findings contract))

/-- The rule of a check as it is unless configured. -/
def defaultRule (check : Check) : Rule :=
  check.rule check.defaultSeverity true

end Check

namespace Rule

/-- The default catalog. -/
def defaults : List Rule := Check.all.map Check.defaultRule

end Rule
end SorobanLint
