import SorobanLint.Schema
import SorobanLint.Text.Decimal
import SorobanLint.Text.Digit
import SorobanLint.Violation

/-!
# Reading records field by field

The validator of the command line, and its reader of violations.  All fields that do not fit are
reported together, in the order of the record's fields; entries that belong to no field are ignored.
The words of an error name the fields and leave out what stands in their entries.
-/

namespace SorobanLint

/-- How an entry fails to fit its field. -/
inductive Mismatch where
  | missing
  | notText
  | notInteger
  | badInteger
  | fractional
  | notFinite
  | tooLarge
  | notMap
  | notSeverity
deriving DecidableEq, Repr

namespace Mismatch

/-- The mismatch in words. -/
def message : Mismatch → String
  | missing => "Field required [type=missing]"
  | notText => "Input should be a valid string [type=string_type]"
  | notInteger => "Input should be a valid integer [type=int_type]"
  | badInteger =>
    "Input should be a valid integer, unable to parse string as an integer [type=int_parsing]"
  | fractional =>
    "Input should be a valid integer, got a number with a fractional part [type=int_from_float]"
  | notFinite => "Input should be a finite number [type=finite_number]"
  | tooLarge =>
    "Unable to parse input string as an integer, exceeded maximum size [type=int_parsing_size]"
  | notMap => "Input should be a valid dictionary [type=dict_type]"
  | notSeverity => "Input should be 'error', 'warning' or 'info' [type=enum]"

end Mismatch

/-- The fields of a record that do not fit. -/
structure ValidationError where
  /-- The name of the record. -/
  model : String
  /-- The fields with what is wrong, in order. -/
  mismatches : List (String × Mismatch)
deriving DecidableEq, Repr

namespace ValidationError

/-- The error in words: the number of fields, and each field with what is wrong. -/
def message (error : ValidationError) : String :=
  let count := error.mismatches.length
  let title := s!"{count} validation error" ++ (if count = 1 then "" else "s") ++
    s!" for {error.model}"
  let fields := error.mismatches.flatMap fun (field, mismatch) => [field, "  " ++ mismatch.message]
  "\n".intercalate (title :: fields)

end ValidationError

/-- A part of a record, or all fields that do not fit. -/
abbrev Checked (α : Type) := Except (List (String × Mismatch)) α

namespace Checked

/-- Add a part to a record that still waits for it; the mismatches of both are kept. -/
def and {α β : Type} (record : Checked (α → β)) (part : Checked α) : Checked β :=
  match record, part with
  | .ok f, .ok a => .ok (f a)
  | .error faults, .ok _ => .error faults
  | .ok _, .error faults => .error faults
  | .error faults, .error more => .error (faults ++ more)

/-- The record, or the error of the model with the given name. -/
def finish {α : Type} (model : String) (record : Checked α) : Except ValidationError α :=
  record.mapError (⟨model, ·⟩)

/-- Read an entry with the given reader; without an entry, the default if there is one. -/
def field {α : Type} (value : Value) (key : String) (default : Option α)
    (read : Value → Except Mismatch α) : Checked α :=
  match value.get? key with
  | some entry => (read entry).mapError fun mismatch => [(key, mismatch)]
  | none =>
    match default with
    | some a => .ok a
    | none => .error [(key, .missing)]

end Checked

namespace Value

/-- The value as a text. -/
def readText : Value → Except Mismatch String
  | string s => .ok s
  | _ => .error .notText

/-- The value as a map. -/
def readMap : Value → Except Mismatch (List (Value × Value))
  | map entries => .ok entries
  | _ => .error .notMap

/-- The whole number that a text denotes: a sign perhaps, digits with single underscores between
them, and a point and zeros behind them perhaps. -/
def integerOfText (s : String) : Except Mismatch Int :=
  let text := Text.unpad s.toList
  let (negative, text) := match text with
    | '-' :: rest => (true, rest)
    | '+' :: rest => (false, rest)
    | _ => (false, text)
  let whole := text.takeWhile (· ≠ '.')
  let fraction := text.dropWhile (· ≠ '.')
  let groups := Text.pieces (· = '_') whole
  if groups.all (fun group => !group.isEmpty && group.all Char.isDigit) &&
      (fraction.drop 1).all (· = '0') then
    let digits := groups.flatten
    if Text.digitLimit < digits.length then .error .tooLarge
    else
      let n : Int := Text.decimal digits
      .ok (if negative then -n else n)
  else .error .badInteger

/-- The whole number that a number of double precision is, if it has less than 64 bits with its
sign. -/
def integerOfReal : Double → Except Mismatch Int
  | .finite negative units =>
    match (Double.finite negative units).toInt? with
    | none => .error .fractional
    | some n => if n.natAbs < 0x8000000000000000 then .ok n else .error .tooLarge
  | _ => .error .notFinite

/-- The value as a whole number. -/
def readInteger : Value → Except Mismatch Int
  | int n => .ok n
  | bool b => .ok (if b then 1 else 0)
  | real x => integerOfReal x
  | string s => integerOfText s
  | _ => .error .notInteger

/-- The value as the name of a severity. -/
def readSeverity : Value → Except Mismatch Severity
  | string s =>
    match Severity.ofName? s with
    | some severity => .ok severity
    | none => .error .notSeverity
  | _ => .error .notSeverity

end Value

/-- Read the entry of a field of the type. -/
def FieldType.read : (type : FieldType) → Value → Except Mismatch type.Content
  | text, value => value.readText
  | map, value => value.readMap
  | optional _, .null => .ok none
  | optional type, value => (type.read value).map some

/-- Read fields one after the other. -/
def Checked.contents (value : Value) : (fields : List RecordField) → Checked (Contents fields)
  | [] => .ok ()
  | field :: rest =>
    let start : Checked _ := .ok Prod.mk
    start
      |>.and (Checked.field value field.name field.default? field.type.read)
      |>.and (contents value rest)

/-- The validator that reads every field from its entry. -/
def Validator.reader : Validator := fun schema value =>
  ((Checked.contents value schema.fields).finish schema.name).mapError ValidationError.message

namespace Violation

/-- Read a violation; the column is 1, and variable and suggestion are empty, unless given. -/
def ofValue (value : Value) : Except ValidationError Violation :=
  let start : Checked _ := .ok Violation.mk
  start
    |>.and (Checked.field value "rule_name" none Value.readText)
    |>.and (Checked.field value "description" none Value.readText)
    |>.and (Checked.field value "severity" none Value.readSeverity)
    |>.and (Checked.field value "line_number" none Value.readInteger)
    |>.and (Checked.field value "column_number" (some 1) Value.readInteger)
    |>.and (Checked.field value "variable_name" (some "") Value.readText)
    |>.and (Checked.field value "suggestion" (some "") Value.readText)
    |>.finish "RuleViolation"

end Violation
end SorobanLint
