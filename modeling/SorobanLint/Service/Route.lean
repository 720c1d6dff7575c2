import SorobanLint.Rule.Configured
import SorobanLint.Service.Envelope
import SorobanLint.Service.Request
import SorobanLint.Service.Supply

/-!
# Routed messages

A message names one of three actions: analyze a text, detect its language, or list the rules.
An action tells the failures that it expects.  Whatever else goes wrong, from a message of the
wrong shape to a value of the wrong type in its payload or one that has no text, ends the serving of
the message and is told as an internal error, so every message is answered.
-/

namespace SorobanLint

open Text

namespace Scanner

/-- The rules that are run over Soroban contracts. -/
def rules (scanner : Scanner) : List Rule :=
  match scanner.analyzer? .soroban with
  | some analyzer => analyzer.rules
  | none => []

/-- The states of the rules as a list of records. -/
def ruleList (scanner : Scanner) : Value :=
  .list (scanner.rules.map Rule.toValue)

end Scanner

namespace Route

/-- The language that a value names: none if the value counts as false, and nothing if it names no
language. -/
def languageOf? (value : Value) : Option (Option Language) :=
  if !value.isTruthy then some none
  else
    match value with
    | .string name => (Language.ofName? name).map some
    | _ => none

/-- The source that a payload names. -/
def sourceOf (payload : List (Value × Value)) : Value :=
  match Value.lookup? "source" payload with
  | none => .string defaultSource
  | some value => if value.isTruthy then value else .string defaultSource

/-- The result of a scan as a record, which must have a text for the name of its source. -/
def report (validate : Validator) (source : Value) (result : ScanResult) : Except String Outcome :=
  (validate ScanResult.schema (.record [("source", source)])).map fun (name, _) =>
    .success { result with source := name }.toValue

/-- What the scan of a source with the given name comes to; an error that is not about the text ends
the serving. -/
def outcomeOf (validate : Validator) (source : Value) :
    Except ScanError ScanResult → Except String Outcome
  | .ok result => report validate source result
  | .error (.parse error) => .ok (.failure .parseError error.message)
  | .error (.unsupported language source) =>
    .ok (.failure .unsupportedLanguage (ScanError.unsupported language source).message)
  | .error error => .error error.message

/-- Scan a text under the given name of its source.  A name that has no text ends the serving
wherever the scan would write it. -/
def scan (validate : Validator) (scanner : Scanner) (code : String) (source : Value)
    (language : Option Language) : Except String Outcome :=
  if source.isOverlong && scanner.writesSource code language then .error tooLongToWrite
  else outcomeOf validate source (scanner.scanContent code source.text language)

/-- Analyze the text in a payload. -/
def analyze (validate : Validator) (scanner : Scanner) (payload : List (Value × Value)) :
    Except String Outcome :=
  let missing : Except String Outcome := .ok (.failure .missingCode "payload.code is required")
  match Value.lookup? "code" payload with
  | none => missing
  | some (.string code) =>
    if (trim code.toList).isEmpty then missing
    else
      let named := Value.ofOption (Value.lookup? "language" payload)
      match languageOf? named with
      | some language => scan validate scanner code (sourceOf payload) language
      | none => named.told.map fun name =>
        .failure .unsupportedLanguage ("Unknown language: " ++ name)
  | some value =>
    if value.isTruthy then .error s!"'{value.typeName}' object has no attribute 'strip'"
    else missing

/-- Whether a marker occurs in a value: inside a text, among the items of a list, or among the
keys of a map. -/
def holds? (value : Value) : Except String (String → Bool) :=
  match value with
  | .string s => .ok fun marker => contains marker.toList s.toList
  | .list items => .ok fun marker => items.any (Value.sameKey (.string marker))
  | .map entries => .ok fun marker => entries.any fun entry => Value.sameKey (.string marker) entry.1
  | value => .error s!"argument of type '{value.typeName}' is not iterable"

/-- Detect the language of what is in a payload. -/
def detectLanguage (payload : List (Value × Value)) : Except String Outcome :=
  let code := (Value.lookup? "code" payload).getD (.string "")
  (holds? code).map fun has =>
    let language := (Language.ofMarkers? has).map fun language => Value.string language.name
    .success (.record [("language", .ofOption language)])

/-- Do what a message asks for. -/
def serve (validate : Validator) (scanner : Scanner) (request : Request) : Except String Outcome :=
  if request.action = "analyze" then analyze validate scanner request.payload
  else if request.action = "detect_language" then detectLanguage request.payload
  else if request.action = "list_rules" then
    .ok (.success (.record [("rules", scanner.ruleList)]))
  else .ok (.failure .unknownAction ("Unsupported action: " ++ request.action))

/-- The request in a message. -/
def requestOf (validate : Validator) (message : Value) : Except String Request :=
  match message with
  | .map _ => Request.ofValue validate message
  | _ =>
    .error <|
      "gasguard.models.MCPRequest() argument after ** must be a mapping, not " ++ message.typeName

/-- The answer to a message that cannot be served; it carries the id in the message, whatever its
type. -/
def refuse (message : Value) (reason : String) : Envelope :=
  ⟨(message.get? "request_id").getD (.string "unknown"), .failure .internalError reason⟩

/-- The answer to a message, and the supply behind it. -/
def answer (validate : Validator) (supply : ScannerSupply) (message : Value) :
    Envelope × ScannerSupply :=
  match requestOf validate message with
  | .error reason => (refuse message reason, supply)
  | .ok request =>
    match supply.take with
    | (.error reason, supply) => (refuse message reason, supply)
    | (.ok scanner, supply) =>
      match serve validate scanner request with
      | .error reason => (refuse message reason, supply)
      | .ok outcome => (⟨.string request.id, outcome⟩, supply)

end Route
end SorobanLint
