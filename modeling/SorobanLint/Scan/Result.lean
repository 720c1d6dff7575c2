import SorobanLint.Calendar.Moment
import SorobanLint.Json.Write
import SorobanLint.Schema
import SorobanLint.Violation

/-!
# Scan results

What the analysis of one source finds, as a record and as an indented JSON text.
-/

namespace SorobanLint

/-- The violation as a record. -/
def Violation.toValue (violation : Violation) : Value :=
  .record [
    ("rule_name", .string violation.ruleName),
    ("description", .string violation.description),
    ("severity", .string violation.severity.name),
    ("line_number", .int violation.line),
    ("column_number", .int violation.column),
    ("variable_name", .string violation.variableName),
    ("suggestion", .string violation.suggestion)]

/-- The violations in one source. -/
structure ScanResult where
  /-- The name of the source. -/
  source : String
  /-- The violations, in order. -/
  violations : List Violation
deriving DecidableEq, Repr

namespace ScanResult

/-- The field of a result that may be given a value of any shape. -/
def schema : Schema := ⟨"ScanResult", [⟨"source", .text, none⟩]⟩

/-- Whether there are violations. -/
def hasViolations (result : ScanResult) : Bool :=
  !result.violations.isEmpty

/-- The number of violations in words. -/
def summary (result : ScanResult) : String :=
  Violation.summary result.violations

/-- The violations as a list of records. -/
def violationList (result : ScanResult) : Value :=
  .list (result.violations.map Violation.toValue)

/-- Source, violations and summary as a record. -/
def toValue (result : ScanResult) : Value :=
  .record [
    ("source", .string result.source),
    ("violations", result.violationList),
    ("summary", .string result.summary)]

/-- Source, violations and the time of the scan as an indented JSON text. -/
def toJson (result : ScanResult) (time : Calendar.Moment) : String :=
  Json.pretty 0 <| .record [
    ("source", .string result.source),
    ("violations", result.violationList),
    ("scan_time", .string time.text)]

end ScanResult
end SorobanLint
