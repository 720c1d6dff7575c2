import SorobanLint.Value.Basic

/-!
# Response envelopes

Every request is answered by an envelope with the request's id: with data, or with the code and
text of a failure.
-/

namespace SorobanLint

/-- Why a request is not served. -/
inductive FailureCode where
  | missingCode
  | unsupportedLanguage
  | parseError
  | unknownAction
  | internalError
deriving DecidableEq, Repr

namespace FailureCode

/-- The name of the code. -/
def name : FailureCode → String
  | missingCode => "MISSING_CODE"
  | unsupportedLanguage => "UNSUPPORTED_LANGUAGE"
  | parseError => "PARSE_ERROR"
  | unknownAction => "UNKNOWN_ACTION"
  | internalError => "INTERNAL_ERROR"

end FailureCode

/-- What a request comes to. -/
inductive Outcome where
  /-- The data asked for. -/
  | success (data : Value)
  /-- Why there is none. -/
  | failure (code : FailureCode) (message : String)

/-- The answer to a request. -/
structure Envelope where
  /-- The id of the request, or what stands for it. -/
  requestId : Value
  /-- What the request comes to. -/
  outcome : Outcome

namespace Envelope

/-- A failure as a record, given its code's name. -/
def failureRecord (requestId : Value) (code message : String) : Value :=
  .record [
    ("request_id", requestId),
    ("type", .string "error"),
    ("data", .null),
    ("error", .record [("code", .string code), ("message", .string message)])]

/-- The envelope as a record. -/
def toValue (envelope : Envelope) : Value :=
  match envelope.outcome with
  | .success data =>
    .record [
      ("request_id", envelope.requestId),
      ("type", .string "success"),
      ("data", data)]
  | .failure code message => failureRecord envelope.requestId code.name message

end Envelope
end SorobanLint
