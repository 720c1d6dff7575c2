import SorobanLint.Proofs.Validators
import SorobanLint.Service.Route

/-!
# Routed messages and their answers

A lawful validator makes a request of a message exactly if it is a map with texts for the id and the
action, a map for the payload and a map or nothing for the context (`Route.requestOf_eq_ok_iff`).
Every message is answered with its own id, by data only if it is a request for a known action, and
by an internal error whenever no request is made of it (`Route.answer_toValue`).
-/

namespace SorobanLint

/-- A message is a map that says what a request says. -/
structure Request.ReadFrom (request : Request) (message : Value) : Prop where
  /-- The id is a text. -/
  id : message.get? "request_id" = some (.string request.id)
  /-- So is the action. -/
  action : message.get? "action" = some (.string request.action)
  /-- The payload is a map. -/
  payload : message.get? "payload" = some (.map request.payload)
  /-- The context is a map, or it is absent or null. -/
  context : (∃ entries, message.get? "context" = some (.map entries) ∧
      request.context = some entries) ∨
    (message.get? "context" = none ∨ message.get? "context" = some .null) ∧ request.context = none

namespace Request

/-- What the fields of a request hold. -/
def contents (request : Request) : Contents schema.fields :=
  (request.id, request.action, request.payload, request.context, ())

theorem readFrom_iff_fit {request : Request} {message : Value} :
    request.ReadFrom message ↔ Contents.Fit message schema.fields request.contents := by
  have context_iff := @RecordField.fits_optional_iff message "context" .map .map
    (fun _ _ => FieldType.takes_map_iff) nofun request.context
  constructor
  · rintro ⟨id, action, payload, context⟩
    exact ⟨RecordField.fits_text_iff.mpr id, RecordField.fits_text_iff.mpr action,
      RecordField.fits_map_iff.mpr payload, context_iff.mpr context, trivial⟩
  · rintro ⟨id, action, payload, context, -⟩
    exact ⟨RecordField.fits_text_iff.mp id, RecordField.fits_text_iff.mp action,
      RecordField.fits_map_iff.mp payload, context_iff.mp context⟩

/-- A request is made of a map that says what it says. -/
theorem ofValue_eq_ok_iff {validate : Validator} (lawful : validate.Lawful) {request : Request}
    {entries : List (Value × Value)} (json : (Value.map entries).IsJson) :
    ofValue validate (.map entries) = .ok request ↔ request.ReadFrom (.map entries) := by
  rw [ofValue, Checked.map_eq_ok_iff, readFrom_iff_fit, ← lawful.eq_ok_iff json]
  constructor
  · rintro ⟨contents, valid, rfl⟩
    exact valid
  · exact fun valid => ⟨_, valid, rfl⟩

end Request

namespace Route

variable {validate : Validator} {message : Value} {request : Request} {scanner : Scanner}

theorem requestOf_eq_ok_iff (lawful : validate.Lawful) (json : message.IsJson) :
    requestOf validate message = .ok request ↔ request.ReadFrom message := by
  cases message with
  | map entries => exact Request.ofValue_eq_ok_iff lawful json
  | _ =>
      refine iff_of_false (fun read => by cases read) fun read => ?_
      cases read.id

/-- Data is given for known actions only. -/
theorem action_of_serve {data : Value}
    (served : serve validate scanner request = .ok (.success data)) :
    request.action ∈ ["analyze", "detect_language", "list_rules"] := by
  rw [serve] at served
  split at served
  next analyze => simp [analyze]
  next =>
    split at served
    next detect => simp [detect]
    next =>
      split at served
      next list => simp [list]
      next => cases served

/-- A message is refused, or the request in it is served. -/
theorem answer_cases (validate : Validator) (supply : ScannerSupply) (message : Value) :
    (∃ reason, (answer validate supply message).1 = refuse message reason) ∨
    ∃ request scanner outcome, requestOf validate message = .ok request ∧
      supply.take.1 = .ok scanner ∧ serve validate scanner request = .ok outcome ∧
      (answer validate supply message).1 = ⟨.string request.id, outcome⟩ := by
  rw [answer]
  split
  next reason unread => exact .inl ⟨reason, rfl⟩
  next request read =>
    split
    next reason supply taken => exact .inl ⟨reason, rfl⟩
    next scanner supply taken =>
      split
      next reason served => exact .inl ⟨reason, rfl⟩
      next outcome served =>
        exact .inr ⟨request, scanner, outcome, read, congrArg Prod.fst taken, served, rfl⟩

/-- A request that is served is answered by what it comes to. -/
theorem answer_of_serve {supply : ScannerSupply} (read : requestOf validate message = .ok request)
    (given : supply.take.1 = .ok scanner) {outcome : Outcome}
    (served : serve validate scanner request = .ok outcome) :
    (answer validate supply message).1 = ⟨.string request.id, outcome⟩ := by
  rw [answer, read]
  generalize supply.take = taken at given ⊢
  obtain ⟨_, supply⟩ := taken
  obtain rfl : _ = Except.ok scanner := given
  simp only [served]

/-- A message of which no request is made is refused. -/
theorem answer_of_requestOf_error (supply : ScannerSupply) {reason : String}
    (invalid : requestOf validate message = .error reason) :
    (answer validate supply message).1 = refuse message reason := by
  rw [answer, invalid]

/-- Where no request fits a message, none is made of it. -/
theorem exists_requestOf_error (lawful : validate.Lawful) (json : message.IsJson)
    (no_request : ∀ request : Request, ¬request.ReadFrom message) :
    ∃ reason, requestOf validate message = .error reason := by
  cases made : requestOf validate message with
  | error reason => exact ⟨reason, rfl⟩
  | ok request => exact absurd ((requestOf_eq_ok_iff lawful json).mp made) (no_request request)

/-- The answer carries the id of the message. -/
theorem requestId_answer (lawful : validate.Lawful) (supply : ScannerSupply)
    (json : message.IsJson) :
    (answer validate supply message).1.requestId =
      (message.get? "request_id").getD (.string "unknown") := by
  obtain ⟨reason, refused⟩ | ⟨request, scanner, outcome, read, -, -, answered⟩ :=
    answer_cases validate supply message
  · rw [refused, refuse]
  · rw [answered, ((requestOf_eq_ok_iff lawful json).mp read).id, Option.getD_some]

end Route

namespace Envelope

theorem get?_requestId (envelope : Envelope) :
    envelope.toValue.get? "request_id" = some envelope.requestId := by
  obtain ⟨requestId, data | ⟨code, message⟩⟩ := envelope
  · rfl
  · rfl

end Envelope

namespace Route

/-- Whatever a lawful validator refuses and in whatever words, every message in JSON is answered
under its own id, or under `unknown` if it has none.  The answer is a success only if the message is
a request for a known action; otherwise it is an error with one of five codes and no data.  A
message of which no request is made is answered by an internal error in the words of the reason, and
of one that no request fits, none is made. -/
theorem answer_toValue {validate : Validator} (lawful : validate.Lawful) (supply : ScannerSupply)
    {message : Value} (json : message.IsJson) :
    let answered := (answer validate supply message).1.toValue
    answered.get? "request_id" =
      some ((message.get? "request_id").getD (.string "unknown")) ∧
    ((answered.get? "type" = some (.string "success") ∧ answered.get? "error" = none ∧
        ∃ request : Request, request.ReadFrom message ∧
          request.action ∈ ["analyze", "detect_language", "list_rules"]) ∨
      (answered.get? "type" = some (.string "error") ∧ answered.get? "data" = some .null ∧
        ∃ code ∈ ["MISSING_CODE", "UNSUPPORTED_LANGUAGE", "PARSE_ERROR", "UNKNOWN_ACTION",
          "INTERNAL_ERROR"], ∃ text, answered.get? "error" =
            some (.record [("code", .string code), ("message", .string text)]))) ∧
    (∀ reason, requestOf validate message = .error reason → answered.get? "error" =
      some (.record [("code", .string "INTERNAL_ERROR"), ("message", .string reason)])) ∧
    ((∀ request : Request, ¬request.ReadFrom message) →
      ∃ reason, requestOf validate message = .error reason) := by
  refine ⟨?_, ?_, fun reason invalid => ?_, exists_requestOf_error lawful json⟩
  · rw [Envelope.get?_requestId, requestId_answer lawful supply json]
  · obtain ⟨reason, refused⟩ | ⟨request, scanner, outcome, read, -, served, answered⟩ :=
      answer_cases validate supply message
    · rw [refused]
      exact .inr ⟨rfl, rfl, "INTERNAL_ERROR", by simp, reason, rfl⟩
    · have read := (requestOf_eq_ok_iff lawful json).mp read
      rw [answered]
      cases outcome with
      | success data => exact .inl ⟨rfl, rfl, request, read, action_of_serve served⟩
      | failure code text => exact .inr ⟨rfl, rfl, code.name, by cases code <;> decide, text, rfl⟩
  · rw [answer_of_requestOf_error supply invalid]
    rfl

/-- A message with a number for its id and without a payload is answered under this number, by an
internal error. -/
theorem answer_toValue_no_payload :
    let message := Value.record [("request_id", .int 7), ("action", .string "list_rules")]
    let supply := ScannerSupply.ofScanner (Scanner.ofEngine Engine.default none)
    let answered := (answer Validator.reader supply message).1.toValue
    Validator.reader.Lawful ∧ message.IsJson ∧
      answered.get? "request_id" = some (.int 7) ∧
      ∃ text, answered.get? "error" =
        some (.record [("code", .string "INTERNAL_ERROR"), ("message", .string text)]) := by
  intro message supply answered
  have json : message.IsJson := .record (by simpa using ⟨.int 7, .string _⟩)
  have no_request (request : Request) : ¬request.ReadFrom message := fun read => by
    cases read.id
  obtain ⟨id, -, refused, invalid⟩ := answer_toValue Validator.lawful_reader supply json
  obtain ⟨reason, invalid⟩ := invalid no_request
  exact ⟨Validator.lawful_reader, json, id, reason, refused reason invalid⟩

end Route
end SorobanLint
