import SorobanLint.Value.Basic

/-!
# Records and their fields

A record is made of a value by a validator, which gives every field a content of the field's type or
says in words what does not fit.  What a validator takes and in which words it refuses the rest is
not settled here: the service is given one.
-/

namespace SorobanLint

/-- What a field of a record is declared to hold. -/
inductive FieldType where
  /-- A text. -/
  | text
  /-- A map. -/
  | map
  /-- Nothing, or what a field of another type holds. -/
  | optional (type : FieldType)
deriving DecidableEq, Repr

/-- What a field of the type holds. -/
@[reducible]
def FieldType.Content : FieldType → Type
  | text => String
  | map => List (Value × Value)
  | optional type => Option type.Content

/-- A field of a record. -/
structure RecordField where
  /-- The key of the entry that the field is made of. -/
  name : String
  /-- What the field holds. -/
  type : FieldType
  /-- What the field holds if there is no entry; if there is no such default either, the field is
  missing. -/
  default? : Option type.Content

/-- What the given fields hold, one after the other. -/
@[reducible]
def Contents : List RecordField → Type
  | [] => Unit
  | field :: rest => field.type.Content × Contents rest

/-- A kind of record. -/
structure Schema where
  /-- The name of the kind. -/
  name : String
  /-- The fields in order. -/
  fields : List RecordField

/-- What makes records of values: the contents of the fields, or what is wrong in words. -/
abbrev Validator := (schema : Schema) → Value → Except String (Contents schema.fields)

end SorobanLint
