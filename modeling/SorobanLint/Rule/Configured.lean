import SorobanLint.Rule.Catalog
import SorobanLint.Text.Lower
import SorobanLint.Value.Text

/-!
# Configured rules

A configuration is a value of any shape.  Its `rules` map the ids of catalog rules to settings: a
severity and a switch.  What counts as false stands for absence, unknown ids and severities are
ignored, and a value of another shape where a map is needed is an error.  So is an id or a severity
with a whole number that has too many digits: it cannot be told as unknown.
-/

namespace SorobanLint

/-- Why no rules are made from a configuration. -/
inductive ConfigError where
  /-- A value of the given type stands where a map is needed. -/
  | notMap (typeName : String)
  /-- A value of the given type stands where the ids of rules are needed. -/
  | notIterable (typeName : String)
  /-- A value of the given type stands where the id of a rule is needed. -/
  | notKey (typeName : String)
  /-- A value with too large a number stands where the id of a rule or a severity is needed. -/
  | overlong
deriving DecidableEq, Repr

namespace ConfigError

/-- The error in words. -/
def message : ConfigError → String
  | notMap typeName => s!"'{typeName}' object has no attribute 'get'"
  | notIterable typeName => s!"'{typeName}' object is not iterable"
  | notKey typeName => s!"unhashable type: '{typeName}'"
  | overlong => Text.tooLongToWrite

end ConfigError

namespace Rule

/-- The entries of a value that must be a map unless it counts as false. -/
def entriesOf (value : Value) : Except ConfigError (List (Value × Value)) :=
  match value with
  | .map entries => .ok entries
  | value => if value.isTruthy then .error (.notMap value.typeName) else .ok []

/-- What is wrong with the id of a rule: it must be a possible key and have a text. -/
def idError? (id : Value) : Option ConfigError :=
  match id.unfitForKey? with
  | some part => some (.notKey part.typeName)
  | none => if id.isOverlong then some .overlong else none

/-- Values that may have to be told must have a text. -/
def checkTexts (values : List Value) : Except ConfigError Unit :=
  if values.any Value.isOverlong then .error .overlong else .ok ()

/-- Check the ids of rules that a value lists.  Those in a map or a set are possible keys. -/
def checkIds (value : Value) : Except ConfigError Unit :=
  match value with
  | .map entries => checkTexts (entries.map (·.1))
  | .set items => checkTexts items
  | .string _ => .ok ()
  | .bytes _ => .ok ()
  | .list items =>
    match items.findSome? idError? with
    | some error => .error error
    | none => .ok ()
  | value => if value.isTruthy then .error (.notIterable value.typeName) else .ok ()

/-- The severity in the settings of a check: the one with the given name in any case, or else the
default. -/
def severityIn (check : Check) (settings : List (Value × Value)) : Severity :=
  match Value.lookup? "severity" settings with
  | none => check.defaultSeverity
  | some value =>
    let name := String.ofList (Text.lower value.text.toList)
    (Severity.ofName? name).getD check.defaultSeverity

/-- Whether the settings leave a check switched on. -/
def enabledIn (settings : List (Value × Value)) : Bool :=
  match Value.lookup? "enabled" settings with
  | none => true
  | some value => value.isTruthy

/-- The rule of a check under the given overrides. -/
def configured (overrides : List (Value × Value)) (check : Check) : Except ConfigError Rule := do
  let settings ← entriesOf (.ofOption (Value.lookup? check.id overrides))
  checkTexts (Value.lookup? "severity" settings).toList
  return check.rule (severityIn check settings) (enabledIn settings)

/-- The catalog under a configuration. -/
def ofConfig (config : Value) : Except ConfigError (List Rule) := do
  let entries ← entriesOf config
  let rules := Value.ofOption (Value.lookup? "rules" entries)
  checkIds rules
  let overrides ← entriesOf rules
  Check.all.mapM (configured overrides)

/-- The state of a rule as a record. -/
def toValue (rule : Rule) : Value :=
  .record [
    ("id", .string rule.id),
    ("name", .string rule.name),
    ("severity", .string rule.severity.name),
    ("enabled", .bool rule.enabled),
    ("description", .string rule.description)]

end Rule
end SorobanLint
