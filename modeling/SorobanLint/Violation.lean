import SorobanLint.Severity

/-!
# Violations

A violation is a finding of a rule at a line and column.  Two violations of one rule on one line
about one variable are the same finding; removing duplicates keeps the first of each.
-/

namespace SorobanLint

/-- A finding of a rule. -/
structure Violation where
  /-- The id of the rule. -/
  ruleName : String
  /-- What is wrong. -/
  description : String
  /-- How serious it is. -/
  severity : Severity
  /-- The line, from 1. -/
  line : Int
  /-- The column, from 1. -/
  column : Int
  /-- The variable the finding is about, or the empty text. -/
  variableName : String
  /-- What to do about it. -/
  suggestion : String
deriving DecidableEq, Repr

namespace Violation

/-- What makes two violations the same finding. -/
def identity (violation : Violation) : String × Int × String :=
  (violation.ruleName, violation.line, violation.variableName)

/-- The violations without those whose identity occurs earlier. -/
def dedupe : List Violation → List Violation
  | [] => []
  | violation :: rest =>
    violation :: (dedupe rest).filter fun other => other.identity ≠ violation.identity

/-- The violations of one severity. -/
def ofSeverity (severity : Severity) (violations : List Violation) : List Violation :=
  violations.filter (·.severity = severity)

/-- The number of violations, in total and by severity, in words. -/
def summary (violations : List Violation) : String :=
  if violations.isEmpty then "No violations found! Your contract is optimized."
  else
    let count (severity : Severity) := (ofSeverity severity violations).length
    s!"Scan Summary: {violations.length} total violations " ++
      s!"({count .error} errors, {count .warning} warnings, {count .info} info)"

theorem dedupe_sublist (violations : List Violation) :
    (dedupe violations).Sublist violations := by
  induction violations with
  | nil => exact List.Sublist.slnil
  | cons violation rest ih => exact (List.filter_sublist.trans ih).cons_cons violation

end Violation
end SorobanLint
