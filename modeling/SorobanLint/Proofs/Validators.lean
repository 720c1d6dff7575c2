import SorobanLint.Validation

/-!
# What is known of validators

A validator of the service takes values that stand in JSON by the declarations of a record's fields
(`Validator.Lawful`), whatever its words for what it refuses.  The validator that reads every field
from its entry is one of these (`Validator.lawful_reader`).
-/

namespace SorobanLint

/-- A value that can stand in JSON. -/
inductive Value.IsJson : Value → Prop where
  | null : IsJson .null
  | bool (b : Bool) : IsJson (.bool b)
  | int (n : Int) : IsJson (.int n)
  | real (x : Double) : IsJson (.real x)
  | string (s : String) : IsJson (.string s)
  | list {items : List Value} (items_json : ∀ item ∈ items, IsJson item) : IsJson (.list items)
  /-- The keys of a map are texts. -/
  | map {entries : List (Value × Value)}
      (keys_text : ∀ entry ∈ entries, ∃ key, entry.1 = .string key)
      (entries_json : ∀ entry ∈ entries, IsJson entry.2) : IsJson (.map entries)

/-- What is found under a key of a value in JSON can stand in JSON too. -/
theorem Value.IsJson.get? {value entry : Value} {key : String} (json : value.IsJson)
    (found : value.get? key = some entry) : entry.IsJson := by
  cases json with
  | @map entries keys_text entries_json =>
      rw [Value.get?] at found
      induction entries with
      | nil => cases found
      | cons first rest ih =>
          obtain ⟨first_json, rest_json⟩ := List.forall_mem_cons.mp entries_json
          rw [lookup?] at found
          split at found
          · obtain rfl := Option.some.inj found
            exact first_json
          · exact ih (List.forall_mem_cons.mp keys_text).2 rest_json found
  | _ => cases found

/-- A record of values that can stand in JSON can stand there itself. -/
theorem Value.IsJson.record {entries : List (String × Value)}
    (json : ∀ entry ∈ entries, entry.2.IsJson) : (Value.record entries).IsJson := by
  refine .map (List.forall_mem_map.mpr ?_) (List.forall_mem_map.mpr json)
  exact fun entry _ => ⟨entry.1, rfl⟩

/-! ## Contents that fit -/

/-- What a field of the type holds for its entry. -/
inductive FieldType.Takes : (type : FieldType) → Value → type.Content → Prop where
  /-- A text is taken as it is, and nothing else is taken for a text. -/
  | text (s : String) : Takes .text (.string s) s
  /-- A map is taken as it is, and nothing else is taken for a map. -/
  | map (entries : List (Value × Value)) : Takes .map (.map entries) entries
  /-- An optional field may be given nothing. -/
  | null (type : FieldType) : Takes (.optional type) .null none
  /-- Anything else that it is given must be what its type takes. -/
  | some {type : FieldType} {entry : Value} {content : type.Content} (present : entry ≠ .null)
      (takes : Takes type entry content) : Takes (.optional type) entry (some content)

/-- A field holds what it takes of its entry, or its default if it has no entry. -/
def RecordField.Fits (field : RecordField) (value : Value) (content : field.type.Content) : Prop :=
  (∃ entry, value.get? field.name = some entry ∧ field.type.Takes entry content) ∨
    value.get? field.name = none ∧ field.default? = some content

/-- Every field holds what it has to hold; entries of no field are ignored. -/
def Contents.Fit (value : Value) : (fields : List RecordField) → Contents fields → Prop
  | [], _ => True
  | field :: rest, (content, contents) => field.Fits value content ∧ Fit value rest contents

/-- What is documented of a validator: how it treats maps that stand in JSON, with the fields of any
record. -/
structure Validator.Lawful (validate : Validator) : Prop where
  /-- The contents that are given fit the fields. -/
  fit_of_eq_ok {schema : Schema} {value : Value} {contents : Contents schema.fields}
    (json : value.IsJson) (valid : validate schema value = .ok contents) :
    Contents.Fit value schema.fields contents
  /-- If there are contents that fit the fields, these are given. -/
  eq_ok_of_fit {schema : Schema} {entries : List (Value × Value)}
    {contents : Contents schema.fields} (json : (Value.map entries).IsJson)
    (fit : Contents.Fit (.map entries) schema.fields contents) :
    validate schema (.map entries) = .ok contents

section Takes

variable {entry : Value} {type : FieldType}

theorem FieldType.takes_text_iff {s : String} : Takes .text entry s ↔ entry = .string s :=
  ⟨fun takes => by cases takes; rfl, by rintro rfl; exact .text s⟩

theorem FieldType.takes_map_iff {entries : List (Value × Value)} :
    Takes .map entry entries ↔ entry = .map entries :=
  ⟨fun takes => by cases takes; rfl, by rintro rfl; exact .map entries⟩

theorem FieldType.takes_optional_iff {content : Option type.Content} :
    Takes (.optional type) entry content ↔
      entry = .null ∧ content = none ∨
        entry ≠ .null ∧ ∃ held, Takes type entry held ∧ content = some held := by
  constructor
  · intro takes
    cases takes with
    | null => exact .inl ⟨rfl, rfl⟩
    | some present takes => exact .inr ⟨present, _, takes, rfl⟩
  · rintro (⟨rfl, rfl⟩ | ⟨present, held, takes, rfl⟩)
    · exact .null type
    · exact .some present takes

end Takes

section Fields

variable {value : Value} {key : String}

theorem RecordField.fits_text_iff {s : String} :
    (⟨key, .text, none⟩ : RecordField).Fits value s ↔ value.get? key = some (.string s) := by
  simp [Fits, FieldType.takes_text_iff]

theorem RecordField.fits_map_iff {entries : List (Value × Value)} :
    (⟨key, .map, none⟩ : RecordField).Fits value entries ↔
      value.get? key = some (.map entries) := by
  simp [Fits, FieldType.takes_map_iff]

/-- An optional field holds what its entry is made of, or nothing if nothing is given. -/
theorem RecordField.fits_optional_iff {type : FieldType} {make : type.Content → Value}
    (takes_iff : ∀ entry held, type.Takes entry held ↔ entry = make held)
    (make_ne_null : ∀ held, make held ≠ .null) {content : Option type.Content} :
    (⟨key, .optional type, some none⟩ : RecordField).Fits value content ↔
      (∃ held, value.get? key = some (make held) ∧ content = some held) ∨
        (value.get? key = none ∨ value.get? key = some .null) ∧ content = none := by
  simp only [Fits, FieldType.takes_optional_iff, takes_iff, Option.some.injEq]
  constructor
  · rintro (⟨entry, given, ⟨rfl, rfl⟩ | ⟨-, held, rfl, rfl⟩⟩ | ⟨absent, rfl⟩)
    · exact .inr ⟨.inr given, rfl⟩
    · exact .inl ⟨held, given, rfl⟩
    · exact .inr ⟨.inl absent, rfl⟩
  · rintro (⟨held, given, rfl⟩ | ⟨absent | null, rfl⟩)
    · exact .inl ⟨_, given, .inr ⟨make_ne_null held, held, rfl, rfl⟩⟩
    · exact .inr ⟨absent, rfl⟩
    · exact .inl ⟨.null, null, .inl ⟨rfl, rfl⟩⟩

end Fields

theorem Validator.Lawful.eq_ok_iff {validate : Validator} (lawful : validate.Lawful)
    {schema : Schema} {entries : List (Value × Value)} {contents : Contents schema.fields}
    (json : (Value.map entries).IsJson) :
    validate schema (.map entries) = .ok contents ↔
      Contents.Fit (.map entries) schema.fields contents :=
  ⟨lawful.fit_of_eq_ok json, lawful.eq_ok_of_fit json⟩

/-! ## The validator that reads every field -/

namespace Checked

variable {α β : Type} {value : Value} {key : String}

theorem and_eq_ok_iff {record : Checked (α → β)} {part : Checked α} {b : β} :
    record.and part = .ok b ↔ ∃ f a, record = .ok f ∧ part = .ok a ∧ f a = b := by
  cases record <;> cases part <;> simp [Checked.and]

theorem mapError_eq_ok_iff {ε ε' : Type} {x : Except ε α} {f : ε → ε'} {a : α} :
    x.mapError f = .ok a ↔ x = .ok a := by
  cases x with
  | error fault => exact ⟨fun same => (by cases same), fun same => by cases same⟩
  | ok b =>
      refine ⟨fun same => congrArg Except.ok (Except.ok.inj same), fun same => ?_⟩
      cases same
      rfl

theorem map_eq_ok_iff {ε : Type} {x : Except ε α} {f : α → β} {b : β} :
    x.map f = .ok b ↔ ∃ a, x = .ok a ∧ b = f a := by
  cases x <;> simp [Except.map, eq_comm]

/-- A field is read from its entry, or it has its default. -/
theorem field_eq_ok_iff {default : Option α} {read : Value → Except Mismatch α} {a : α} :
    field value key default read = .ok a ↔
      (∃ entry, value.get? key = some entry ∧ read entry = .ok a) ∨
        value.get? key = none ∧ default = some a := by
  cases present : value.get? key with
  | some entry =>
      simp [field, present, mapError_eq_ok_iff]
  | none =>
      simp only [field, present]
      cases default <;> simp

end Checked

theorem FieldType.read_eq_ok_iff {type : FieldType} {entry : Value} {content : type.Content} :
    type.read entry = .ok content ↔ type.Takes entry content := by
  induction type generalizing entry with
  | text => rw [takes_text_iff]; cases entry <;> simp [read, Value.readText]
  | map => rw [takes_map_iff]; cases entry <;> simp [read, Value.readMap]
  | optional type ih =>
      rw [takes_optional_iff]
      by_cases null : entry = .null
      · subst null
        simp [read, eq_comm]
      · have read_some : (optional type).read entry = (type.read entry).map some := by
          cases entry <;> first | rfl | exact absurd rfl null
        rw [read_some, or_iff_right (fun given => null given.1), and_iff_right null,
          Checked.map_eq_ok_iff]
        simp only [ih]

theorem Checked.contents_eq_ok_iff {value : Value} {fields : List RecordField}
    {contents : Contents fields} :
    Checked.contents value fields = .ok contents ↔ Contents.Fit value fields contents := by
  induction fields with
  | nil => simp [Checked.contents, Contents.Fit]
  | cons field rest ih =>
      obtain ⟨content, contents⟩ := contents
      have part : Checked.field value field.name field.default? field.type.read = .ok content ↔
          field.Fits value content := by
        simp only [field_eq_ok_iff, FieldType.read_eq_ok_iff, RecordField.Fits]
      rw [Contents.Fit, ← part, ← ih]
      simp only [Checked.contents, Checked.and_eq_ok_iff]
      constructor
      · rintro ⟨_, _, ⟨_, _, ⟨⟩, first, rfl⟩, others, ⟨⟩⟩
        exact ⟨first, others⟩
      · rintro ⟨first, others⟩
        exact ⟨_, contents, ⟨_, content, rfl, first, rfl⟩, others, rfl⟩

/-- Reading every field from its entry is lawful. -/
theorem Validator.lawful_reader : reader.Lawful := by
  have valid_iff {schema : Schema} {value : Value} {contents : Contents schema.fields} :
      reader schema value = .ok contents ↔ Contents.Fit value schema.fields contents := by
    rw [reader, Checked.mapError_eq_ok_iff, Checked.finish, Checked.mapError_eq_ok_iff,
      Checked.contents_eq_ok_iff]
  exact ⟨fun _ valid => valid_iff.mp valid, fun _ fit => valid_iff.mpr fit⟩

end SorobanLint
