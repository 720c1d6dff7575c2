import SorobanLint.Calendar.Moment
import SorobanLint.Double.Basic

/-!
# Values

Values of requests and configurations, whose shape is not known in advance.  A map keeps its
entries in the order in which their keys first came; a later entry with the same key replaces the
value.  A text is a sequence of characters, among which halves of surrogate pairs do not occur.
-/

namespace SorobanLint

/-- A value of any shape. -/
inductive Value where
  /-- No value. -/
  | null
  /-- A truth value. -/
  | bool (b : Bool)
  /-- A whole number. -/
  | int (n : Int)
  /-- A number of double precision. -/
  | real (x : Double)
  /-- A day. -/
  | date (day : Calendar.Date)
  /-- A point in time. -/
  | time (moment : Calendar.Moment)
  /-- A sequence of octets. -/
  | bytes (octets : List UInt8)
  /-- A text. -/
  | string (s : String)
  /-- A list of values. -/
  | list (items : List Value)
  /-- Two values that belong together. -/
  | pair (first second : Value)
  /-- Different values in no order. -/
  | set (items : List Value)
  /-- Keys with their values. -/
  | map (entries : List (Value × Value))
deriving Inhabited, Repr

namespace Value

/-- The name of the value's type. -/
def typeName : Value → String
  | null => "NoneType"
  | bool _ => "bool"
  | int _ => "int"
  | real _ => "float"
  | date _ => "datetime.date"
  | time _ => "datetime.datetime"
  | bytes _ => "bytes"
  | string _ => "str"
  | list _ => "list"
  | pair _ _ => "tuple"
  | set _ => "set"
  | map _ => "dict"

/-- Whether the value counts as true: it is neither absent nor false, zero or empty. -/
def isTruthy : Value → Bool
  | null => false
  | bool b => b
  | int n => n ≠ 0
  | real x => !x.isZero
  | date _ => true
  | time _ => true
  | bytes octets => !octets.isEmpty
  | string s => s ≠ ""
  | list items => !items.isEmpty
  | pair _ _ => true
  | set items => !items.isEmpty
  | map entries => !entries.isEmpty

/-- The part of a value because of which it cannot be a key: itself if it is a list, a set or a
map, or such a part of a pair. -/
def unfitForKey? : Value → Option Value
  | list items => some (list items)
  | set items => some (set items)
  | map entries => some (map entries)
  | pair first second => unfitForKey? first <|> unfitForKey? second
  | _ => none

/-- The number that a truth value or a whole number stands for. -/
def asInt? : Value → Option Int
  | bool b => some (if b then 1 else 0)
  | int n => some n
  | real x => x.toInt?
  | _ => none

/-- Whether two keys are the same; numbers are the same key if they are equal, and a truth value is
the same key as its number. -/
def sameKey (a b : Value) : Bool :=
  match a, b with
  | null, null => true
  | date s, date t => s = t
  | time s, time t => s = t
  | bytes s, bytes t => s = t
  | string s, string t => s = t
  | pair a b, pair c d => sameKey a c && sameKey b d
  | real x, real y => x.same y
  | a, b => a.asInt?.isSome && a.asInt? = b.asInt?

/-- The entries with something put under a key. -/
def insertEntry {α : Type} (key : Value) (entry : α) : List (Value × α) → List (Value × α)
  | [] => [(key, entry)]
  | (other, old) :: rest =>
    if sameKey key other then (other, entry) :: rest
    else (other, old) :: insertEntry key entry rest

/-- The value under a text key among the entries. -/
def lookup? (key : String) : List (Value × Value) → Option Value
  | [] => none
  | (other, value) :: rest => if sameKey (.string key) other then some value else lookup? key rest

/-- The value under a text key; nothing if there is none or the value is no map. -/
def get? (value : Value) (key : String) : Option Value :=
  match value with
  | map entries => lookup? key entries
  | _ => none

/-- A map from texts. -/
def record (entries : List (String × Value)) : Value :=
  map (entries.map fun (key, value) => (.string key, value))

/-- A value or `null`. -/
def ofOption : Option Value → Value
  | some value => value
  | none => null

end Value
end SorobanLint
