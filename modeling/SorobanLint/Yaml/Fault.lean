import SorobanLint.Calendar.Date
import SorobanLint.Text.Numeral

/-!
# What is wrong with a YAML text

Most texts without a value are simply mistaken.  The other faults lie in a single scalar, whose
text does not denote a value of the type that it has or is given.
-/

namespace SorobanLint
namespace Yaml

/-- Why a text has no value. -/
inductive Fault where
  /-- The text is no YAML, or has no value of the kinds that are known. -/
  | mistake
  /-- An escape stands for a number beyond the last character. -/
  | noCharacter
  /-- An escape stands for a number beyond 31 bits. -/
  | hugeCharacter
  /-- Nothing is left of a number but its sign. -/
  | emptyNumber
  /-- A text is no number. -/
  | numeral (fault : Numeral.Fault)
  /-- A number in base 60 has too many parts. -/
  | tooManyParts
  /-- A word, in lower case, is no truth value. -/
  | noTruthValue (word : List Char)
  /-- A text is no point in time. -/
  | noTime
  /-- A mapping stands for a point in time. -/
  | mappingAsTime
  /-- A day or a point in time does not exist. -/
  | calendar (fault : Calendar.Fault)
deriving DecidableEq, Repr

namespace Fault

/-- The fault in words; those of mere mistakes are told to nobody. -/
def message : Fault → String
  | mistake => ""
  | noCharacter => "chr() arg not in range(0x110000)"
  | hugeCharacter => "Python int too large to convert to C int"
  | emptyNumber => "string index out of range"
  | numeral fault => fault.message
  | tooManyParts => "int too large to convert to float"
  | noTruthValue word => Text.quoted (String.ofList word)
  | noTime => "'NoneType' object has no attribute 'groupdict'"
  | mappingAsTime => "expected string or bytes-like object, got 'list'"
  | calendar fault => fault.message

end Fault
end Yaml
end SorobanLint
