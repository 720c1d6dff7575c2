/-!
# Reasons for which no contract is recovered

Each error is a cause; its wording is in one function.
-/

namespace SorobanLint

/-- A bracket, attribute or declaration that is still open where the source or its block ends. -/
inductive StructureFault where
  /-- An attribute that no bracket closes. -/
  | openAttribute
  /-- So many braces outside the marked declarations that nothing closes. -/
  | openBraces (count : Nat) (path : String)
  /-- None of the characters that can go on a header appears behind the line. -/
  | openHeader (expected : String) (line : Nat)
  /-- The block that opens on the line is never closed. -/
  | openBlock (line : Nat)
  /-- The marked `impl` on the line ends before its block. -/
  | implWithoutBlock (line : Nat)
  /-- A closer in the parameter list that does not fit, at an offset behind the function's name. -/
  | wrongCloser (name : String) (line : Nat) (closer : Char) (offset : Nat)
  /-- The parameter list of the function on the line is never closed. -/
  | openParams (name : String) (line : Nat)
  /-- The function on the line has neither a body nor a semicolon. -/
  | functionWithoutBody (name : String) (line : Nat)
deriving DecidableEq, Repr

namespace StructureFault

/-- The fault in words. -/
def message : StructureFault → String
  | openAttribute => "attribute opened but never closed before end of input"
  | openBraces count path => s!"{count} unclosed brace(s) at end of input in {path}"
  | openHeader expected line =>
    s!"expected one of '{expected}' after line {line} before end of input"
  | openBlock line => s!"block opened at line {line} is never closed"
  | implWithoutBlock line => s!"#[contractimpl] at line {line} has no body"
  | wrongCloser name line closer offset =>
    s!"unbalanced parameter list for fn {name} at line {line}: unexpected '{closer}' at offset {offset}"
  | openParams name line => s!"parameter list for fn {name} at line {line} is never closed"
  | functionWithoutBody name line => s!"fn {name} at line {line} has no body before end of input"

end StructureFault

/-- Why the scan of a source stops early. -/
inductive Fault where
  /-- Something is still open. -/
  | unfinished (fault : StructureFault)
  /-- The function header that was seen behind the attributes of a line is not found again from
  its column on. -/
  | lostHeader (line : Nat)
deriving DecidableEq, Repr

/-- Why the analysis of one source is given up. -/
inductive ParseError where
  /-- No struct carries a marker, so the contract has no name. -/
  | missingMarker (reason : String)
  /-- The source is never balanced. -/
  | invalidStructure (reason : String)
  /-- The source cannot be read. -/
  | unreadable (reason : String)
  /-- A function header was lost between two readings of its line. -/
  | lostHeader (line : Nat)
  /-- A supplied analyzer gives up, with a kind and a reason of its own. -/
  | other (kind reason : String)
deriving DecidableEq, Repr

namespace ParseError

/-- The name of the error's class. -/
def kind : ParseError → String
  | missingMarker _ => "missing_macro"
  | invalidStructure _ => "invalid_structure"
  | unreadable _ => "io_error"
  | lostHeader _ => "internal"
  | other kind _ => kind

/-- The reason as given. -/
def reason : ParseError → String
  | missingMarker reason => reason
  | invalidStructure reason => reason
  | unreadable reason => reason
  | lostHeader line => s!"function header at line {line} is lost"
  | other _ reason => reason

/-- The error in words. -/
def message : ParseError → String
  | missingMarker reason => "Missing required Soroban macro: " ++ reason
  | invalidStructure reason => "Invalid contract structure: " ++ reason
  | unreadable reason => "IO error: " ++ reason
  | error@(lostHeader _) => error.reason
  | error@(other _ _) => error.reason

end ParseError

namespace Fault

/-- The fault as an error about a source that does have a marked struct. -/
def toParseError : Fault → ParseError
  | unfinished fault => .invalidStructure fault.message
  | lostHeader line => .lostHeader line

end Fault
end SorobanLint
