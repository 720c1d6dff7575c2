import SorobanLint.Schema

/-!
# Requests

The two kinds of request: a routed message, which names an action and carries a payload, and the
body of an analysis request.
-/

namespace SorobanLint

/-- A routed message. -/
structure Request where
  /-- The id that the answer carries. -/
  id : String
  /-- The name of the action. -/
  action : String
  /-- What the action is given. -/
  payload : List (Value × Value)
  /-- What else the sender wants to pass. -/
  context : Option (List (Value × Value))

namespace Request

/-- The fields of a routed message. -/
def schema : Schema where
  name := "MCPRequest"
  fields := [
    ⟨"request_id", .text, none⟩,
    ⟨"action", .text, none⟩,
    ⟨"payload", .map, none⟩,
    ⟨"context", .optional .map, some none⟩]

/-- The routed message with the given contents. -/
def ofContents : Contents schema.fields → Request
  | (id, action, payload, context, _) => ⟨id, action, payload, context⟩

/-- Make a routed message of a value. -/
def ofValue (validate : Validator) (value : Value) : Except String Request :=
  (validate schema value).map ofContents

end Request

/-- The name of a source that is given none. -/
def defaultSource : String := "remote-analysis"

/-- The body of an analysis request. -/
structure AnalyzeRequest where
  /-- The source text. -/
  code : String
  /-- The name of the source. -/
  source : String
  /-- The name of the language, if it is given. -/
  language : Option String
deriving DecidableEq, Repr

namespace AnalyzeRequest

/-- The fields of an analysis request. -/
def schema : Schema where
  name := "AnalyzeRequest"
  fields := [
    ⟨"code", .text, none⟩,
    ⟨"source", .text, some defaultSource⟩,
    ⟨"language", .optional .text, some none⟩]

/-- The analysis request with the given contents. -/
def ofContents : Contents schema.fields → AnalyzeRequest
  | (code, source, language, _) => ⟨code, source, language⟩

/-- Make an analysis request of its body. -/
def ofValue (validate : Validator) (body : Value) : Except String AnalyzeRequest :=
  (validate schema body).map ofContents

end AnalyzeRequest
end SorobanLint
