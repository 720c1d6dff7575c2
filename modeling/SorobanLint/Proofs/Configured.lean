import SorobanLint.Proofs.Catalog

/-!
# Faulty configurations

Rules are made from every configuration but those in which something that counts as true stands
where a map is needed, and those in which a whole number of too many digits stands for the id of a
rule or for a severity (`Rule.Faulty`).  The rules that are made are decided by the settings of the
checks and nothing else (`Rule.ofConfig_spec`).
-/

namespace SorobanLint

open Text

namespace Value

/-- The entries of a map; none if the value is no map. -/
def entries : Value → List (Value × Value)
  | map entries => entries
  | _ => []

@[simp]
theorem lookup?_entries (key : String) (value : Value) :
    lookup? key value.entries = value.get? key := by
  cases value <;> rfl

theorem entries_eq_nil {value : Value} (no_map : ∀ own, value ≠ .map own) : value.entries = [] := by
  cases value with
  | map own => exact absurd rfl (no_map own)
  | _ => rfl

end Value

namespace Check

/-- The severity that settings name in any case. -/
def namedSeverity? (settings : Value) : Option Severity :=
  (settings.get? "severity").bind fun value =>
    Severity.ofName? (String.ofList (lower value.text.toList))

/-- Whether settings leave a check switched on. -/
def isEnabled (settings : Value) : Bool :=
  ((settings.get? "enabled").map Value.isTruthy).getD true

/-- The rule of a check under settings of any shape. -/
def ruleUnder (check : Check) (settings : Value) : Rule :=
  check.rule ((namedSeverity? settings).getD check.defaultSeverity) (isEnabled settings)

end Check

namespace Rule

/-- The overrides in a configuration. -/
def rulesIn (config : Value) : Value :=
  .ofOption (config.get? "rules")

/-- The settings of a check in a configuration. -/
def settingsIn (config : Value) (check : Check) : Value :=
  .ofOption ((rulesIn config).get? check.id)

/-- The rules of all checks, each under its own settings. -/
def catalogUnder (config : Value) : List Rule :=
  Check.all.map fun check => check.ruleUnder (settingsIn config check)

/-- The value counts as true and is no map. -/
def Misshapen (value : Value) : Prop :=
  value.isTruthy = true ∧ ∀ entries, value ≠ .map entries

/-- What is wrong with a configuration from which no rules are made. -/
inductive Faulty (config : Value) : Prop where
  | shape (misshapen : Misshapen config)
  | rules (misshapen : Misshapen (rulesIn config))
  | settings {check : Check} (misshapen : Misshapen (settingsIn config check))
  /-- The key of an override has no text, so that it cannot be told as unknown. -/
  | key {entry : Value × Value} (mem : entry ∈ (rulesIn config).entries)
      (overlong : entry.1.isOverlong = true)
  /-- A severity has no text, so that it cannot be told as unknown. -/
  | severity {check : Check} {value : Value}
      (given : (settingsIn config check).get? "severity" = some value)
      (overlong : value.isOverlong = true)

variable {value config : Value} {entries overrides : List (Value × Value)} {check : Check}
  {rule : Rule} {rules : List Rule}

/-! ## Reading maps -/

/-- Entries are read from a map, and none from what counts as false. -/
theorem entriesOf_eq_ok_iff :
    entriesOf value = .ok entries ↔ ¬Misshapen value ∧ entries = value.entries := by
  fun_cases entriesOf value with
  | case1 own =>
      have shaped : ¬Misshapen (.map own) := fun misshapen => misshapen.2 own rfl
      exact ⟨fun read => ⟨shaped, (Except.ok.inj read).symm⟩, fun read => congrArg _ read.2.symm⟩
  | case2 value no_map truthy =>
      have misshapen : Misshapen value := ⟨truthy, no_map⟩
      exact ⟨nofun, fun read => absurd misshapen read.1⟩
  | case3 value no_map falsy =>
      have shaped : ¬Misshapen value := fun misshapen => falsy misshapen.1
      rw [Value.entries_eq_nil no_map]
      exact ⟨fun read => ⟨shaped, (Except.ok.inj read).symm⟩, fun read => congrArg _ read.2.symm⟩

/-! ## Values that have no text -/

theorem checkTexts_eq_ok_iff {values : List Value} :
    checkTexts values = .ok () ↔ ∀ value ∈ values, ¬value.isOverlong = true := by
  rw [checkTexts]
  split
  next overlong =>
    obtain ⟨value, mem, overlong⟩ := List.any_eq_true.mp overlong
    exact ⟨nofun, fun short => absurd overlong (short value mem)⟩
  next short =>
    exact ⟨fun _ value mem overlong => short (List.any_eq_true.mpr ⟨value, mem, overlong⟩),
      fun _ => rfl⟩

/-- What counts as false lists no ids, and the ids that a map lists must have a text. -/
theorem checkIds_eq_ok_iff (shaped : ¬Misshapen value) :
    checkIds value = .ok () ↔ ∀ entry ∈ value.entries, ¬entry.1.isOverlong = true := by
  have falsy (no_map : ∀ own, value ≠ .map own) : ¬value.isTruthy = true :=
    fun truthy => shaped ⟨truthy, no_map⟩
  fun_cases checkIds value with
  | case1 own =>
      rw [checkTexts_eq_ok_iff, List.forall_mem_map]
      rfl
  | case2 items =>
      obtain rfl : items = [] := by simpa [Value.isTruthy] using falsy nofun
      exact iff_of_true rfl (List.forall_mem_nil _)
  | case3 => exact iff_of_true rfl (List.forall_mem_nil _)
  | case4 => exact iff_of_true rfl (List.forall_mem_nil _)
  | case5 items error found =>
      obtain rfl : items = [] := by simpa [Value.isTruthy] using falsy nofun
      contradiction
  | case6 => exact iff_of_true rfl (List.forall_mem_nil _)
  | case7 value no_map _ _ _ _ truthy => exact absurd truthy (falsy no_map)
  | case8 value no_map =>
      rw [Value.entries_eq_nil no_map]
      exact iff_of_true rfl (List.forall_mem_nil _)

/-! ## The rule of a check -/

theorem severityIn_entries (check : Check) (settings : Value) :
    severityIn check settings.entries =
      (Check.namedSeverity? settings).getD check.defaultSeverity := by
  rw [severityIn, Check.namedSeverity?, Value.lookup?_entries]
  cases settings.get? "severity" <;> rfl

theorem enabledIn_entries (settings : Value) :
    enabledIn settings.entries = Check.isEnabled settings := by
  rw [enabledIn, Check.isEnabled, Value.lookup?_entries]
  cases settings.get? "enabled" <;> rfl

/-- Settings from which a check can be made a rule. -/
structure Fit (settings : Value) : Prop where
  shaped : ¬Misshapen settings
  told : ∀ value, settings.get? "severity" = some value → ¬value.isOverlong = true

theorem configured_eq_ok_iff :
    configured overrides check = .ok rule ↔
      Fit (.ofOption (Value.lookup? check.id overrides)) ∧
        check.ruleUnder (.ofOption (Value.lookup? check.id overrides)) = rule := by
  rw [configured]
  generalize Value.ofOption (Value.lookup? check.id overrides) = settings
  simp only [bind_eq_ok_iff, entriesOf_eq_ok_iff]
  constructor
  · rintro ⟨_, ⟨shaped, rfl⟩, _, texts, made⟩
    rw [Value.lookup?_entries] at texts
    refine ⟨⟨shaped, fun value given => ?_⟩, ?_⟩
    · exact checkTexts_eq_ok_iff.mp texts value (Option.mem_toList.mpr given)
    · rw [Check.ruleUnder, ← severityIn_entries, ← enabledIn_entries]
      exact Except.ok.inj made
  · rintro ⟨⟨shaped, told⟩, rfl⟩
    refine ⟨_, ⟨shaped, rfl⟩, (), ?_, ?_⟩
    · rw [checkTexts_eq_ok_iff, Value.lookup?_entries]
      exact fun value given => told value (Option.mem_toList.mp given)
    · rw [severityIn_entries, enabledIn_entries]
      rfl

/-! ## The catalog -/

/-- What is not faulty has fit settings for every check, besides overrides that can be told. -/
theorem not_faulty_iff :
    ¬Faulty config ↔
      ¬Misshapen config ∧ ¬Misshapen (rulesIn config) ∧
        (∀ entry ∈ (rulesIn config).entries, ¬entry.1.isOverlong = true) ∧
          ∀ check, Fit (settingsIn config check) := by
  constructor
  · intro sound
    exact ⟨fun misshapen => sound (.shape misshapen), fun misshapen => sound (.rules misshapen),
      fun _ mem overlong => sound (.key mem overlong),
      fun _ => ⟨fun misshapen => sound (.settings misshapen),
        fun _ given overlong => sound (.severity given overlong)⟩⟩
  · rintro ⟨shaped, rules_shaped, told, fit⟩ (misshapen | misshapen | misshapen | ⟨mem, overlong⟩ |
      ⟨given, overlong⟩)
    · exact shaped misshapen
    · exact rules_shaped misshapen
    · exact (fit _).shaped misshapen
    · exact told _ mem overlong
    · exact (fit _).told _ given overlong

theorem mapM_configured_eq_ok_iff :
    Check.all.mapM (configured (rulesIn config).entries) = .ok rules ↔
      (∀ check, Fit (settingsIn config check)) ∧ rules = catalogUnder config := by
  simp only [mapM_eq_ok_iff, configured_eq_ok_iff, Value.lookup?_entries]
  rw [List.forall₂_and_left, ← List.forall₂_map_left_iff, List.forall₂_eq_eq_eq]
  exact and_congr ⟨fun fit check => fit check check.mem_all, fun fit check _ => fit check⟩ eq_comm

/-- Rules are made from a configuration without a fault, one for each check. -/
theorem ofConfig_eq_ok_iff :
    ofConfig config = .ok rules ↔ ¬Faulty config ∧ rules = catalogUnder config := by
  rw [not_faulty_iff, ofConfig]
  simp only [bind_eq_ok_iff, entriesOf_eq_ok_iff]
  constructor
  · rintro ⟨_, ⟨shaped, rfl⟩, _, told, _, ⟨rules_shaped, rfl⟩, made⟩
    rw [Value.lookup?_entries] at told rules_shaped made
    obtain ⟨fit, made⟩ := mapM_configured_eq_ok_iff.mp made
    exact ⟨⟨shaped, rules_shaped, (checkIds_eq_ok_iff rules_shaped).mp told, fit⟩, made⟩
  · rintro ⟨⟨shaped, rules_shaped, told, fit⟩, made⟩
    refine ⟨_, ⟨shaped, rfl⟩, (), ?_⟩
    rw [Value.lookup?_entries]
    exact ⟨(checkIds_eq_ok_iff rules_shaped).mpr told, _, ⟨rules_shaped, rfl⟩,
      mapM_configured_eq_ok_iff.mpr ⟨fit, made⟩⟩

theorem exists_error_iff : (∃ error, ofConfig config = .error error) ↔ Faulty config := by
  rw [← not_iff_not]
  constructor
  · intro fine
    cases made : ofConfig config with
    | error error => exact absurd ⟨error, made⟩ fine
    | ok rules => exact (ofConfig_eq_ok_iff.mp made).1
  · rintro sound ⟨error, fails⟩
    rw [ofConfig_eq_ok_iff.mpr ⟨sound, rfl⟩] at fails
    contradiction

/-- Making rules fails on what is faulty and on nothing else.  Otherwise there is one rule for each
check, in the order of the catalog, with the severity and the switch that its settings give it, and
these rules make an engine.  Whatever else a configuration holds does not count. -/
theorem ofConfig_spec (config : Value) :
    ((∃ error, ofConfig config = .error error) ↔ Faulty config) ∧
      (¬Faulty config →
        ∃ engine, ofConfig config = .ok engine.rules ∧ Engine.ofRules engine.rules = .ok engine ∧
          engine.rules = catalogUnder config) ∧
      ∀ other, ¬Faulty config → ¬Faulty other →
        (∀ check, settingsIn config check = settingsIn other check) →
          ofConfig config = ofConfig other := by
  refine ⟨exists_error_iff, ?_, ?_⟩
  · intro sound
    have distinct : ((catalogUnder config).map (·.id)).Nodup := by
      rw [catalogUnder, List.map_map]
      exact Check.nodup_id
    exact ⟨⟨catalogUnder config, distinct⟩, ofConfig_eq_ok_iff.mpr ⟨sound, rfl⟩,
      Engine.ofRules_eq_ok distinct, rfl⟩
  · intro other sound other_sound same
    have same_rules : catalogUnder config = catalogUnder other := by
      simp only [catalogUnder, same]
    rw [ofConfig_eq_ok_iff.mpr ⟨sound, rfl⟩, ofConfig_eq_ok_iff.mpr ⟨other_sound, rfl⟩, same_rules]

/-- Settings by name and by switch, with something else besides them, and rules that are no map. -/
theorem ofConfig_spec_overrides :
    let overrides : List (String × Value) := [
      ("soroban-unbounded-loop", .record [("severity", .string "ERROR")]),
      ("soroban-inefficient-integers", .record [("severity", .bool true), ("enabled", .list [])]),
      ("soroban-expensive-strings", .string "")]
    let config : Value := .record [("rules", .record overrides)]
    let other : Value := .record [
      ("version", .int 2), ("rules", .record (("soroban-unknown", .list [.null]) :: overrides))]
    let severity : Check → Severity := fun
      | .unboundedLoop => .error
      | check => check.defaultSeverity
    let rules := Check.all.map fun check => check.rule (severity check) (check ≠ .wideIntegers)
    ¬Faulty config ∧ ¬Faulty other ∧
      (∃ engine, ofConfig config = .ok engine.rules ∧ Engine.ofRules engine.rules = .ok engine ∧
        engine.rules = rules) ∧
      ofConfig config = ofConfig other ∧
      ∃ error, ofConfig (.record [("rules", .string "none")]) = .error error := by
  intro overrides config other severity rules
  have made : ofConfig config = .ok rules := rfl
  have other_made : ofConfig other = .ok rules := rfl
  obtain ⟨sound, -⟩ := ofConfig_eq_ok_iff.mp made
  obtain ⟨other_sound, -⟩ := ofConfig_eq_ok_iff.mp other_made
  obtain ⟨-, accepted, unaffected⟩ := ofConfig_spec config
  refine ⟨sound, other_sound, accepted sound, unaffected other sound other_sound ?_, ?_⟩
  · intro check
    cases check <;> rfl
  · exact (ofConfig_spec _).1.mpr (.rules ⟨rfl, nofun⟩)

/-- A severity with too many digits, in a configuration with maps where they are needed. -/
theorem ofConfig_overlong :
    let config : Value := .record [("rules", .record [("soroban-unbounded-loop", .record [
      ("severity", .int (10 ^ digitLimit : Nat))])])]
    ¬Misshapen config ∧ ¬Misshapen (rulesIn config) ∧
      (∀ check, ¬Misshapen (settingsIn config check)) ∧
        ∃ error, ofConfig config = .error error := by
  intro config
  refine ⟨fun misshapen => misshapen.2 _ rfl, fun misshapen => misshapen.2 _ rfl, ?_, ?_⟩
  · intro check misshapen
    cases check with
    | unboundedLoop => exact misshapen.2 _ rfl
    | _ => exact absurd misshapen.1 (by decide)
  · have given : (settingsIn config .unboundedLoop).get? "severity" =
        some (.int (10 ^ digitLimit : Nat)) := rfl
    have overlong : (Value.int (10 ^ digitLimit : Nat)).isOverlong = true := by
      rw [Value.isOverlong, Int.natAbs_natCast]
      generalize digitLimit = limit
      exact decide_eq_true (Nat.le_refl _)
    exact exists_error_iff.mpr (.severity given overlong)

end Rule
end SorobanLint
