/-!
# Severities

The three severities of a finding, their names and their rank.
-/

namespace SorobanLint

/-- How serious a finding is. -/
inductive Severity where
  | error
  | warning
  | info
deriving DecidableEq, Repr

namespace Severity

/-- The name of the severity. -/
def name : Severity → String
  | error => "error"
  | warning => "warning"
  | info => "info"

/-- The severity with exactly the given name. -/
def ofName? (name : String) : Option Severity :=
  [error, warning, info].find? fun severity => severity.name = name

/-- The position in the order of seriousness. -/
def rank : Severity → Nat
  | error => 3
  | warning => 2
  | info => 1

/-- Whether the first severity is as serious as the second or more so. -/
def atLeast (severity other : Severity) : Bool :=
  other.rank ≤ severity.rank

@[simp]
theorem ofName?_name (severity : Severity) : ofName? severity.name = some severity := by
  cases severity <;> decide

end Severity
end SorobanLint
