import SorobanLint.Service.Route

/-!
# Handlers of HTTP requests

The state of the service, its rules, and the analysis of a text.  A text that cannot be analyzed is
answered with the status for content that cannot be processed.
-/

namespace SorobanLint
namespace Http

/-- The state of the service. -/
def health : Value :=
  .record [
    ("status", .string "ok"),
    ("service", .string "GasGuard"),
    ("version", .string "0.1.0")]

/-- Why a text is not analyzed. -/
inductive Rejection where
  /-- No language has the given name. -/
  | unknownLanguage (name : String)
  /-- The text is not scanned. -/
  | scan (error : ScanError)
deriving DecidableEq, Repr

namespace Rejection

/-- The rejection in detail. -/
def detail : Rejection → Value
  | unknownLanguage name => .string ("Unknown language: " ++ name)
  | scan (.parse error) =>
    .record [
      ("code", .string FailureCode.parseError.name),
      ("kind", .string error.kind),
      ("message", .string error.message)]
  | scan error =>
    .record [
      ("code", .string FailureCode.unsupportedLanguage.name),
      ("message", .string error.message)]

/-- The rejection as a record with its status. -/
def toValue (rejection : Rejection) : Value :=
  .record [("status", .int 422), ("detail", rejection.detail)]

end Rejection

/-- The language of an analysis request; an empty name stands for none. -/
def languageOf (request : AnalyzeRequest) : Except Rejection (Option Language) :=
  match request.language with
  | none => .ok none
  | some name =>
    if name = "" then .ok none
    else
      match Language.ofName? name with
      | some language => .ok (some language)
      | none => .error (.unknownLanguage name)

/-- Why a text is not analyzed, after an error of its scan; an error about a value is blamed on the
language. -/
def rejectionOf (request : AnalyzeRequest) : ScanError → Rejection
  | .invalid _ => .unknownLanguage (request.language.getD "None")
  | .noPath => .unknownLanguage (request.language.getD "None")
  | error => .scan error

/-- Analyze the text of a request. -/
def analyze (scanner : Scanner) (request : AnalyzeRequest) : Except Rejection ScanResult :=
  match languageOf request with
  | .error rejection => .error rejection
  | .ok language =>
    (scanner.scanContent request.code request.source language).mapError (rejectionOf request)

/-- The answer to an analysis request with the given body; the error of the validator if the body is
no such request. -/
def answerAnalyze (validate : Validator) (scanner : Scanner) (body : Value) :
    Except String Value :=
  (AnalyzeRequest.ofValue validate body).map fun request =>
    match analyze scanner request with
    | .ok result => result.toValue
    | .error rejection => rejection.toValue

/-- The answer to a request at a path; nothing if no handler is there. -/
def answer? (validate : Validator) (scanner : Scanner) (path : String) (body : Value) :
    Option (Except String Value) :=
  if path = "/" then some (.ok health)
  else if path = "/rules" then some (.ok scanner.ruleList)
  else if path = "/analyzer/analyze" then some (answerAnalyze validate scanner body)
  else none

end Http
end SorobanLint
