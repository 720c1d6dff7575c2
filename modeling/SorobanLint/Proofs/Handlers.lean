import SorobanLint.Proofs.Analyzers
import SorobanLint.Proofs.Blanks
import SorobanLint.Proofs.Requests
import SorobanLint.Service.Http

/-!
# Two ways to ask for an analysis

An analysis is asked for by the body of a request or by the payload of a routed message.  Both are
answered alike (`Route.analyze_agrees`): with the same source, violations and summary, or with the
same failure in the same words.
-/

namespace SorobanLint

open Text

/-! ## Reading an analysis request -/

theorem Text.exists_mem_trim {s : List Char} {c : Char} (mem : c ∈ s) (solid : isBlank c = false) :
    c ∈ trim s := by
  have blank_of_front : c ∉ s.takeWhile isBlank := fun front => by
    simp [List.mem_takeWhile_imp front] at solid
  have start : c ∈ trimStart s := by
    rw [← List.takeWhile_append_dropWhile (p := isBlank) (l := s), List.mem_append] at mem
    exact mem.resolve_left blank_of_front
  obtain ⟨blanks, all_blank, start_eq⟩ := exists_append_trimEnd (trimStart s)
  rw [start_eq, List.mem_append] at start
  refine start.resolve_right fun trail => ?_
  simp [all_blank c trail] at solid

theorem Language.ofName?_eq_none_iff {name : String} :
    ofName? name = none ↔ ∀ language : Language, language.name ≠ name := by
  rw [ofName?, List.find?_eq_none]
  constructor
  · intro unknown language
    simpa using unknown language (by cases language <;> simp)
  · intro unknown language _
    simpa using unknown language

theorem Language.name_of_ofName? {name : String} {language : Language}
    (known : ofName? name = some language) : language.name = name := by
  simpa using List.find?_some known

namespace AnalyzeRequest

/-- A body asks for the analysis of a code that is not blank, under the name of a source that is not
empty or under the default name, in the language of a name if one is given. -/
structure AskedBy (request : AnalyzeRequest) (body : Value) : Prop where
  /-- The code is a text. -/
  code : body.get? "code" = some (.string request.code)
  /-- One of its characters is not blank. -/
  not_blank : ∃ c ∈ request.code.toList, isBlank c = false
  /-- The source has a name that is not empty, or none is given. -/
  source : body.get? "source" = some (.string request.source) ∧ request.source ≠ "" ∨
    body.get? "source" = none ∧ request.source = defaultSource
  /-- The language has a name, or none is given. -/
  language : (∃ name, body.get? "language" = some (.string name) ∧ request.language = some name) ∨
    (body.get? "language" = none ∨ body.get? "language" = some .null) ∧ request.language = none

/-- The language that a request names: none if there is no name or an empty one. -/
inductive Names (request : AnalyzeRequest) : Option Language → Prop where
  /-- There is no name. -/
  | absent (given : request.language = none) : Names request none
  /-- The name is empty. -/
  | empty (given : request.language = some "") : Names request none
  /-- The name is that of a language. -/
  | named (language : Language) (given : request.language = some language.name) :
      Names request (some language)

variable {request : AnalyzeRequest} {body : Value}

/-- What the fields of an analysis request hold. -/
def contents (request : AnalyzeRequest) : Contents schema.fields :=
  (request.code, request.source, request.language, ())

theorem AskedBy.fit (asked : request.AskedBy body) :
    Contents.Fit body schema.fields request.contents := by
  have source : (⟨"source", .text, some defaultSource⟩ : RecordField).Fits body request.source := by
    obtain ⟨given, -⟩ | ⟨absent, default⟩ := asked.source
    · exact .inl ⟨_, given, .text _⟩
    · exact .inr ⟨absent, congrArg some default.symm⟩
  have language := (@RecordField.fits_optional_iff body "language" .text .string
    (fun _ _ => FieldType.takes_text_iff) nofun request.language).mpr asked.language
  exact ⟨RecordField.fits_text_iff.mpr asked.code, source, language, trivial⟩

theorem ofValue_eq_ok {validate : Validator} (lawful : validate.Lawful)
    {entries : List (Value × Value)} (json : (Value.map entries).IsJson)
    (asked : request.AskedBy (.map entries)) : ofValue validate (.map entries) = .ok request := by
  rw [ofValue, lawful.eq_ok_of_fit json asked.fit]
  rfl

end AnalyzeRequest

/-! ## The same answer -/

/-- Source, violations and summary of an analysis. -/
def analysisReport (source : String) (violations : List Violation) : Value :=
  .record [
    ("source", .string source),
    ("violations", .list (violations.map Violation.toValue)),
    ("summary", .string (Violation.summary violations))]

/-- The answer to a request that cannot be processed. -/
def unprocessable (detail : Value) : Value :=
  .record [("status", .int 422), ("detail", detail)]

/-- An answer to a request and the outcome of a routed message tell the same about the analysis that
is asked for. -/
inductive Agree (scanner : Scanner) (request : AnalyzeRequest) : Value → Outcome → Prop where
  /-- The source is analyzed. -/
  | success {language : Option Language} {violations : List Violation}
      (named : request.Names language)
      (scans : scanner.scanContent request.code request.source language =
        .ok ⟨request.source, violations⟩) :
      Agree scanner request (analysisReport request.source violations)
        (.success (analysisReport request.source violations))
  /-- There is no language of the given name. -/
  | unknownLanguage {name message : String} (given : request.language = some name)
      (nonempty : name ≠ "") (unknown : ∀ language : Language, language.name ≠ name)
      (message_eq : message = "Unknown language: " ++ name) :
      Agree scanner request (unprocessable (.string message))
        (.failure .unsupportedLanguage message)
  /-- There is no analyzer for the language. -/
  | unsupported {language resolved : Option Language} {message : String}
      (named : request.Names language)
      (scans : scanner.scanContent request.code request.source language =
        .error (.unsupported resolved request.source))
      (message_eq : message = (ScanError.unsupported resolved request.source).message) :
      Agree scanner request
        (unprocessable (.record [
          ("code", .string "UNSUPPORTED_LANGUAGE"), ("message", .string message)]))
        (.failure .unsupportedLanguage message)
  /-- The source cannot be parsed. -/
  | parseError {language : Option Language} {error : ParseError} (named : request.Names language)
      (scans : scanner.scanContent request.code request.source language = .error (.parse error)) :
      Agree scanner request
        (unprocessable (.record [
          ("code", .string "PARSE_ERROR"), ("kind", .string error.kind),
          ("message", .string error.message)]))
        (.failure .parseError error.message)

section Agreement

variable {scanner : Scanner} {request : AnalyzeRequest}

/-- Both ways read the same language, or find that there is none of the given name. -/
theorem languageOf_cases {payload : List (Value × Value)} (asked : request.AskedBy (.map payload)) :
    let sent := Value.ofOption (Value.lookup? "language" payload)
    (∃ language, request.Names language ∧ Http.languageOf request = .ok language ∧
      Route.languageOf? sent = some language) ∨
    ∃ name, request.language = some name ∧ name ≠ "" ∧
      (∀ language : Language, language.name ≠ name) ∧
      Http.languageOf request = .error (.unknownLanguage name) ∧
      sent = .string name ∧ Route.languageOf? sent = none := by
  have given := asked.language
  rw [Value.get?] at given
  obtain ⟨name, present, given⟩ | ⟨absent, given⟩ := given
  · rw [present, Http.languageOf, given]
    by_cases empty : name = ""
    · subst empty
      exact .inl ⟨none, .empty given, rfl, rfl⟩
    · have truthy : (!(Value.string name).isTruthy) = false := by simp [Value.isTruthy, empty]
      simp only [Value.ofOption, Route.languageOf?, truthy, if_neg empty, if_neg Bool.false_ne_true]
      cases known : Language.ofName? name with
      | none =>
          have unknown := Language.ofName?_eq_none_iff.mp known
          exact .inr ⟨name, rfl, empty, unknown, rfl, rfl, rfl⟩
      | some language =>
          have named := given.trans (congrArg some (Language.name_of_ofName? known).symm)
          exact .inl ⟨some language, .named language named, rfl, rfl⟩
  · refine .inl ⟨none, .absent given, by rw [Http.languageOf, given], ?_⟩
    obtain absent | null := absent
    · rw [absent]
      rfl
    · rw [null]
      rfl

section Payload

variable {validate : Validator} {payload : List (Value × Value)}
  (asked : request.AskedBy (.map payload))

include asked

theorem isEmpty_trim_eq_false : (trim request.code.toList).isEmpty = false := by
  obtain ⟨c, mem, solid⟩ := asked.not_blank
  rw [List.isEmpty_eq_false_iff_exists_mem]
  exact ⟨c, exists_mem_trim mem solid⟩

theorem sourceOf_eq : Route.sourceOf payload = .string request.source := by
  rw [Route.sourceOf]
  obtain ⟨given, nonempty⟩ | ⟨absent, default⟩ := asked.source
  · rw [Value.get?] at given
    simp [given, Value.isTruthy, nonempty]
  · rw [Value.get?] at absent
    rw [absent, default]

/-- The payload of a routed message is analyzed as the code, the source and the language in it. -/
theorem analyze_eq_outcomeOf {language : Option Language}
    (sent : Route.languageOf? (.ofOption (Value.lookup? "language" payload)) = some language) :
    Route.analyze validate scanner payload = Route.outcomeOf validate (.string request.source)
      (scanner.scanContent request.code request.source language) := by
  have code := asked.code
  rw [Value.get?] at code
  have not_blank := isEmpty_trim_eq_false asked
  have source := sourceOf_eq asked
  rw [Route.analyze, code]
  simp only [not_blank, source, sent, if_neg Bool.false_ne_true]
  rfl

/-- A payload with an unknown language is not analyzed. -/
theorem analyze_eq_failure {name : String}
    (sent : Value.ofOption (Value.lookup? "language" payload) = .string name)
    (unknown : Route.languageOf? (.ofOption (Value.lookup? "language" payload)) = none) :
    Route.analyze validate scanner payload =
      .ok (.failure .unsupportedLanguage ("Unknown language: " ++ name)) := by
  have code := asked.code
  rw [Value.get?] at code
  have not_blank := isEmpty_trim_eq_false asked
  rw [sent] at unknown
  rw [Route.analyze, code]
  simp only [not_blank, unknown, sent, if_neg Bool.false_ne_true]
  rfl

end Payload

end Agreement

/-- A result is reported under the name of its source. -/
theorem Route.report_eq {validate : Validator} (lawful : validate.Lawful) (result : ScanResult) :
    report validate (.string result.source) result = .ok (.success result.toValue) := by
  have json : (Value.record [("source", .string result.source)]).IsJson :=
    .record (by simpa using .string _)
  have fit : Contents.Fit (.record [("source", .string result.source)]) ScanResult.schema.fields
      (result.source, ()) := ⟨RecordField.fits_text_iff.mpr rfl, trivial⟩
  have valid : validate ScanResult.schema (.record [("source", .string result.source)]) =
      .ok (result.source, ()) := lawful.eq_ok_of_fit json fit
  rw [report, valid]
  rfl

/-- The posted body is analyzed as the code, the source and the language in it. -/
theorem Http.answerAnalyze_eq {validate : Validator} (lawful : validate.Lawful) {scanner : Scanner}
    {request : AnalyzeRequest} {entries : List (Value × Value)} (json : (Value.map entries).IsJson)
    (asked : request.AskedBy (.map entries)) :
    answerAnalyze validate scanner (.map entries) = .ok (match analyze scanner request with
      | .ok result => result.toValue
      | .error rejection => rejection.toValue) := by
  rw [answerAnalyze, AnalyzeRequest.ofValue_eq_ok lawful json asked]
  rfl

/-- With a lawful validator, a body in JSON posted for analysis and a routed message with this
payload are answered alike. -/
theorem Route.analyze_agrees {validate : Validator} (lawful : validate.Lawful)
    {supply : ScannerSupply} {scanner : Scanner} (given : supply.take.1 = .ok scanner)
    (builtIn : scanner.BuiltIn) {request : AnalyzeRequest} {message : Value}
    (json : message.IsJson) {routed : Request} (read : routed.ReadFrom message)
    (action : routed.action = "analyze") (asked : request.AskedBy (.map routed.payload)) :
    ∃ answer outcome,
      Http.answer? validate scanner "/analyzer/analyze" (.map routed.payload) =
        some (.ok answer) ∧
      (Route.answer validate supply message).1 = ⟨.string routed.id, outcome⟩ ∧
      Agree scanner request answer outcome := by
  have body_json : (Value.map routed.payload).IsJson := json.get? read.payload
  suffices agreed : ∃ answer outcome,
      Http.answerAnalyze validate scanner (.map routed.payload) = .ok answer ∧
        analyze validate scanner routed.payload = .ok outcome ∧
        Agree scanner request answer outcome by
    obtain ⟨answer, outcome, answered, analyzed, agree⟩ := agreed
    have served : serve validate scanner routed = .ok outcome := by
      rw [serve, if_pos action, analyzed]
    have made := (requestOf_eq_ok_iff lawful json).mpr read
    exact ⟨answer, outcome, congrArg some answered, answer_of_serve made given served, agree⟩
  rw [Http.answerAnalyze_eq lawful body_json asked, Http.analyze]
  obtain ⟨language, named, posted, sent⟩ |
    ⟨name, named, nonempty, unknown, posted, sent, no_name⟩ := languageOf_cases asked
  · rw [analyze_eq_outcomeOf asked sent, posted]
    dsimp only
    cases scans : scanner.scanContent request.code request.source language with
    | ok result =>
        obtain ⟨source, violations⟩ := result
        obtain rfl : source = request.source := Scanner.source_of_scanContent scans
        exact ⟨_, _, rfl, report_eq lawful _, .success named scans⟩
    | error error =>
        obtain ⟨parse, rfl⟩ | ⟨resolved, rfl⟩ :=
          Scanner.scanContent_error builtIn.failsByParsing scans
        · exact ⟨_, _, rfl, rfl, .parseError named scans⟩
        · exact ⟨_, _, rfl, rfl, .unsupported named scans rfl⟩
  · rw [analyze_eq_failure asked sent no_name, posted]
    exact ⟨_, _, rfl, rfl, .unknownLanguage named nonempty unknown rfl⟩

/-- A struct that is never closed is posted and sent as a message, as Soroban and without a name of
its source. -/
theorem Route.analyze_agrees_unclosed :
    let scanner := Scanner.ofEngine Engine.default none
    let supply : ScannerSupply := ⟨.ok scanner, none⟩
    let code := "#[contracttype]\npub struct A \x7b\n"
    let request : AnalyzeRequest := ⟨code, "remote-analysis", some "soroban"⟩
    let payload : List (Value × Value) :=
      [(.string "code", .string code), (.string "language", .string "soroban")]
    let routed : Request := ⟨"7", "analyze", payload, none⟩
    let message := Value.record [
      ("request_id", .string "7"), ("action", .string "analyze"), ("payload", .map payload)]
    Validator.reader.Lawful ∧ supply.take.1 = .ok scanner ∧ scanner.BuiltIn ∧ message.IsJson ∧
      routed.ReadFrom message ∧ routed.action = "analyze" ∧
      request.AskedBy (.map routed.payload) ∧
      ∃ answer outcome,
        Http.answer? Validator.reader scanner "/analyzer/analyze" (.map routed.payload) =
          some (.ok answer) ∧
        (Route.answer Validator.reader supply message).1 = ⟨.string routed.id, outcome⟩ ∧
        Agree scanner request answer outcome := by
  intro scanner supply code request payload routed message
  have given : supply.take.1 = .ok scanner := rfl
  have builtIn : scanner.BuiltIn := Scanner.builtIn_ofEngine _ _
  have payload_json : (Value.map payload).IsJson :=
    @Value.IsJson.record [("code", .string code), ("language", .string "soroban")]
      (by simpa using ⟨.string _, .string _⟩)
  have json : message.IsJson :=
    .record (by simpa using ⟨.string _, .string _, payload_json⟩)
  have read : routed.ReadFrom message := ⟨rfl, rfl, rfl, .inr ⟨.inl rfl, rfl⟩⟩
  have asked : request.AskedBy (.map routed.payload) :=
    ⟨rfl, ⟨'#', by decide, rfl⟩, .inr ⟨rfl, rfl⟩, .inl ⟨"soroban", rfl, rfl⟩⟩
  exact ⟨Validator.lawful_reader, given, builtIn, json, read, rfl, asked,
    analyze_agrees Validator.lawful_reader given builtIn json read rfl asked⟩

end SorobanLint
