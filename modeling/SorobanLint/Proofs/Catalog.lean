import SorobanLint.Proofs.Engine
import SorobanLint.Proofs.Reading
import SorobanLint.Rule.Configured

/-!
# The catalog under a configuration

A configuration leaves every check in the catalog and decides no more than its severity and its
switch (`Rule.ofConfig_eq_ok`).  So the engine it makes finds what the default engine finds, without
the violations of rules that are switched off and with the configured severities
(`Engine.analyze_configured`).
-/

namespace SorobanLint

open Text Violation

/-- A list is mapped without a fault if each item is, and these are the results in order. -/
theorem mapM_eq_ok_iff {ε α β : Type} {f : α → Except ε β} {items : List α} {results : List β} :
    items.mapM f = .ok results ↔
      List.Forall₂ (fun item result => f item = .ok result) items results := by
  induction items generalizing results with
  | nil =>
      rw [List.forall₂_nil_left_iff]
      exact ⟨fun made => (Except.ok.inj made).symm, fun none => none ▸ rfl⟩
  | cons item items ih =>
      rw [List.mapM_cons]
      constructor
      · intro made
        obtain ⟨result, first, made⟩ := bind_eq_ok_iff.mp made
        obtain ⟨others, rest, made⟩ := bind_eq_ok_iff.mp made
        obtain rfl := Except.ok.inj made
        exact .cons first (ih.mp rest)
      · rintro (_ | ⟨first, rest⟩)
        exact bind_eq_ok_iff.mpr ⟨_, first, bind_eq_ok_iff.mpr ⟨_, ih.mpr rest, rfl⟩⟩

namespace Check

theorem mem_all (check : Check) : check ∈ all := by
  cases check <;> decide

theorem nodup_id : (all.map Check.id).Nodup := by decide

/-- What a check adds under a severity and a switch. -/
theorem output_rule (check : Check) (severity : Severity) (enabled : Bool) (contract : Contract) :
    (check.rule severity enabled).output contract =
      if enabled then Rule.report check.id severity contract (check.findings contract) else [] := by
  cases enabled <;> rfl

end Check

namespace Rule

/-- A rule of the catalog, whatever its severity and switch. -/
def FromCatalog (rule : Rule) : Prop :=
  ∃ check severity enabled, rule = Check.rule check severity enabled

/-- The settings of a check among overrides; none if what stands there is no map. -/
def settingsOf (overrides : List (Value × Value)) (check : Check) : List (Value × Value) :=
  (entriesOf (.ofOption (Value.lookup? check.id overrides))).toOption.getD []

/-- The rule of a check under overrides that are valid for it. -/
def adjusted (overrides : List (Value × Value)) (check : Check) : Rule :=
  check.rule (severityIn check (settingsOf overrides check))
    (enabledIn (settingsOf overrides check))

theorem configured_eq_ok {overrides : List (Value × Value)} {check : Check} {rule : Rule}
    (made : configured overrides check = .ok rule) : rule = adjusted overrides check := by
  obtain ⟨settings, read, made⟩ := bind_eq_ok_iff.mp made
  obtain ⟨-, -, made⟩ := bind_eq_ok_iff.mp made
  have settings_eq : settingsOf overrides check = settings := by
    rw [settingsOf, read]
    rfl
  rw [adjusted, settings_eq]
  exact (Except.ok.inj made).symm

theorem mapM_configured_eq_ok {overrides : List (Value × Value)} {checks : List Check}
    {rules : List Rule} (made : checks.mapM (configured overrides) = .ok rules) :
    rules = checks.map (adjusted overrides) := by
  have each : List.Forall₂ (fun check rule => adjusted overrides check = rule) checks rules :=
    (mapM_eq_ok_iff.mp made).imp fun _ _ made => (configured_eq_ok made).symm
  rw [← List.forall₂_map_left_iff, List.forall₂_eq_eq_eq] at each
  exact each.symm

/-- The rules under a configuration are those of all checks, each with its own settings. -/
theorem ofConfig_eq_ok {config : Value} {rules : List Rule} (made : ofConfig config = .ok rules) :
    ∃ overrides, rules = Check.all.map (adjusted overrides) := by
  obtain ⟨entries, -, made⟩ := bind_eq_ok_iff.mp made
  obtain ⟨-, -, made⟩ := bind_eq_ok_iff.mp made
  obtain ⟨overrides, -, made⟩ := bind_eq_ok_iff.mp made
  exact ⟨overrides, mapM_configured_eq_ok made⟩

theorem fromCatalog_of_mem_defaults {rule : Rule} (mem : rule ∈ defaults) : rule.FromCatalog := by
  obtain ⟨check, -, rfl⟩ := List.mem_map.mp mem
  exact ⟨check, _, _, rfl⟩

end Rule

namespace Engine

variable {engine : Engine} {contract : Contract}

/-- What is left of a violation under the rules of an engine: nothing if its rule is switched off,
and otherwise the violation with the severity of its rule. -/
def review (engine : Engine) (violation : Violation) : Option Violation :=
  match engine.rule? violation.ruleName with
  | none => some violation
  | some rule => if rule.enabled then some { violation with severity := rule.severity } else none

theorem identity_of_review {before after : Violation} (kept : engine.review before = some after) :
    after.identity = before.identity := by
  unfold review at kept
  split at kept
  · rw [Option.some.inj kept]
  · split at kept
    · rw [← Option.some.inj kept]
      rfl
    · contradiction

theorem isSome_review {a b : Violation} (same : a.identity = b.identity) :
    (engine.review a).isSome = (engine.review b).isSome := by
  have same_rule : a.ruleName = b.ruleName := congrArg Prod.fst same
  rw [review, review, same_rule]
  split
  · rfl
  · split <;> rfl

theorem filterMap_review_dedupe (violations : List Violation) :
    dedupe (violations.filterMap engine.review) = (dedupe violations).filterMap engine.review := by
  refine dedupe_filterMap (fun _ _ same => isSome_review same) ?_ violations
  intro a b c d a_kept b_kept
  rw [identity_of_review a_kept, identity_of_review b_kept]

/-- The rules of an engine are those of all checks, each with a severity and a switch. -/
def OfCatalog (engine : Engine) (severity : Check → Severity) (enabled : Check → Bool) : Prop :=
  engine.rules = Check.all.map fun check => check.rule (severity check) (enabled check)

section OfCatalog

variable {severity : Check → Severity} {enabled : Check → Bool}

theorem OfCatalog.review_eq (catalog : engine.OfCatalog severity enabled) (check : Check)
    {violation : Violation} (named : violation.ruleName = check.id) :
    engine.review violation =
      if enabled check then some { violation with severity := severity check } else none := by
  have mem : check.rule (severity check) (enabled check) ∈ engine.rules := by
    rw [catalog]
    exact List.mem_map_of_mem (f := fun check => check.rule (severity check) (enabled check))
      check.mem_all
  have found := rule?_eq_some_iff.mpr ⟨mem, named.symm⟩
  rw [review, found]
  rfl

/-- What the rules add is what they add by default, reviewed. -/
theorem OfCatalog.outputs_eq (catalog : engine.OfCatalog severity enabled) (contract : Contract) :
    engine.outputs contract = (default.outputs contract).filterMap engine.review := by
  have rules_eq : default.rules = Check.all.map Check.defaultRule := rfl
  rw [outputs, outputs, List.filterMap_flatMap, rules_eq, List.flatMap_map, catalog,
    List.flatMap_map]
  refine List.flatMap_congr ?_
  intro check _
  rw [Check.defaultRule, Check.output_rule, Check.output_rule, if_pos rfl, Rule.report,
    Rule.report, List.filterMap_map]
  have reviewed (finding : Finding) :
      engine.review
          (finding.toViolation check.id check.defaultSeverity (linesOf contract.source)) =
        if enabled check then
          some (finding.toViolation check.id (severity check) (linesOf contract.source))
        else none :=
    catalog.review_eq check rfl
  simp only [Function.comp_def, reviewed]
  cases enabled check with
  | false => simp
  | true => simp

/-- What the engine returns is what the default engine returns, reviewed. -/
theorem OfCatalog.check_eq (catalog : engine.OfCatalog severity enabled) (contract : Contract) :
    engine.check contract = (default.check contract).filterMap engine.review := by
  rw [check_eq_dedupe, check_eq_dedupe, catalog.outputs_eq, filterMap_review_dedupe]

end OfCatalog

/-- The rules under a configuration make an engine.  It fails on the sources on which the default
engine fails, with the same errors; otherwise it returns what the default engine returns, in the
same order, but for the violations of rules that are switched off, and with the severities that the
rules have. -/
theorem analyze_configured {config : Value} {rules : List Rule}
    (made : Rule.ofConfig config = .ok rules) (source path : String) :
    ∃ engine, ofRules rules = .ok engine ∧ engine.rules = rules ∧
      engine.analyze source path =
        (default.analyze source path).map (·.filterMap engine.review) := by
  obtain ⟨overrides, rfl⟩ := Rule.ofConfig_eq_ok made
  have distinct : ((Check.all.map (Rule.adjusted overrides)).map (·.id)).Nodup := by
    rw [List.map_map]
    exact Check.nodup_id
  refine ⟨_, ofRules_eq_ok distinct, rfl, ?_⟩
  have catalog : OfCatalog ⟨Check.all.map (Rule.adjusted overrides), distinct⟩
      (fun check => Rule.severityIn check (Rule.settingsOf overrides check))
      (fun check => Rule.enabledIn (Rule.settingsOf overrides check)) := rfl
  rw [analyze, analyze]
  cases Contract.parse source path with
  | error error => rfl
  | ok contract => exact congrArg Except.ok (catalog.check_eq contract)

/-- One rule is made an error, one is switched off by a zero, and one is unknown. -/
theorem analyze_configured_overrides :
    let config : Value := .record [("rules", .record [
      ("soroban-unused-state-variables", .record [("severity", .string "Error")]),
      ("soroban-inefficient-integers", .record [("enabled", .int 0)]),
      ("soroban-unknown", .int 1)])]
    let severity : Check → Severity := fun
      | .unusedState => .error
      | check => check.defaultSeverity
    let rules := Check.all.map fun check => check.rule (severity check) (check ≠ .wideIntegers)
    let source := "#[contracttype]\nstruct A \x7b\n  x: u128,\n\x7d\n"
    let unused (severity : Severity) : Violation := {
      ruleName := "soroban-unused-state-variables"
      description := "State variable 'x' of 'A' is never used by any contract function"
      severity
      line := 3
      column := 3
      variableName := "x"
      suggestion := "Remove 'x' to reduce storage footprint and ledger rent" }
    let wide : Violation := {
      ruleName := "soroban-inefficient-integers"
      description := "Field 'x' of 'A' is declared as u128: " ++
        "128/256-bit integers are more expensive to store and process"
      severity := .info
      line := 3
      column := 3
      variableName := "x"
      suggestion := "Use u64 or u32 when the value range allows it" }
    Rule.ofConfig config = .ok rules ∧
      default.analyze source "a.rs" = .ok [unused .warning, wide] ∧
      ∃ engine, ofRules rules = .ok engine ∧
        engine.analyze source "a.rs" = .ok [unused .error] := by
  intro config severity rules source unused wide
  have made : Rule.ofConfig config = .ok rules := rfl
  have analyzed : default.analyze source "a.rs" = .ok [unused .warning, wide] := by
    decide +kernel
  obtain ⟨engine, accepted, rules_eq, configured⟩ := analyze_configured made source "a.rs"
  rw [analyzed] at configured
  refine ⟨made, analyzed, engine, accepted, configured.trans ?_⟩
  have kept : engine.review (unused .warning) = some (unused .error) := by
    rw [review, rule?, rules_eq]
    rfl
  have dropped : engine.review wide = none := by
    rw [review, rule?, rules_eq]
    rfl
  simp [Except.map, kept, dropped]

end Engine
end SorobanLint
