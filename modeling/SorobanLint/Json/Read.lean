import SorobanLint.Json.Token

/-!
# Reading JSON

A text is read token by token; the lists and maps that are still open wait on a stack.  The first
token that does not fit ends the reading with a fault at its offset, or at the end of the text if
a token is missing.
-/

namespace SorobanLint
namespace Json

/-- A list or map that is still open. -/
inductive Pending where
  /-- A list with its items so far, the last one first. -/
  | list (items : List Value)
  /-- A map with its entries so far. -/
  | map (entries : List (Value × Value))
  /-- A map with its entries so far and the name of the next. -/
  | entry (entries : List (Value × Value)) (name : String)

/-- What may come next. -/
inductive Expectation where
  /-- A value. -/
  | value
  /-- The first item of a list, or its end. -/
  | item
  /-- The name of an entry. -/
  | name
  /-- The name of the first entry of a map, or its end. -/
  | firstName
  /-- The colon behind a name. -/
  | colon
  /-- The end of a list or map, or a comma. -/
  | separator
  /-- Nothing, for the value is complete. -/
  | finish (value : Value)

namespace Expectation

/-- What is wrong when something else comes. -/
def reason : Expectation → Reason
  | value => .expectedValue
  | item => .expectedValue
  | name => .expectedName
  | firstName => .expectedName
  | colon => .expectedColon
  | separator => .expectedComma
  | finish _ => .extraData

end Expectation

/-- How far the reading has come. -/
structure Reading where
  /-- What may come next. -/
  expected : Expectation
  /-- The open lists and maps, the innermost first. -/
  stack : List Pending

namespace Reading

/-- A complete value takes its place in the innermost open list or map. -/
def complete (value : Value) : List Pending → Reading
  | [] => ⟨.finish value, []⟩
  | .list items :: rest => ⟨.separator, .list (value :: items) :: rest⟩
  | .entry entries name :: rest =>
    ⟨.separator, .map (Value.insertEntry (.string name) value entries) :: rest⟩
  | .map entries :: rest => ⟨.separator, .map entries :: rest⟩

/-- How deep lists and maps may lie in one another. -/
def deepest : Nat := 970

/-- Open a list or map inside those that are open, unless it lies too deep. -/
def enter (expected : Expectation) (pending : Pending) (reason : Reason) (stack : List Pending) :
    Except Fault Reading :=
  if deepest < stack.length + 1 then .error ⟨reason, 0⟩ else .ok ⟨expected, pending :: stack⟩

/-- Read a token where a value may begin. -/
def beginValue? (stack : List Pending) : Token → Option (Except Fault Reading)
  | .scalar value => some (.ok (complete value stack))
  | .long digits => some (.error ⟨.tooManyDigits digits, 0⟩)
  | .text content => some (content.map fun s => complete (.string s) stack)
  | .mark '[' => some (enter .item (.list []) .deepList stack)
  | .mark '{' => some (enter .firstName (.map []) .deepMap stack)
  | _ => none

/-- Close the innermost open list or map with the given mark. -/
def close? (c : Char) : List Pending → Option Reading
  | .list items :: rest => if c = ']' then some (complete (.list items.reverse) rest) else none
  | .map entries :: rest => if c = '}' then some (complete (.map entries) rest) else none
  | _ => none

/-- Go on behind a comma. -/
def next? : List Pending → Option Reading
  | stack@(.list _ :: _) => some ⟨.value, stack⟩
  | stack@(.map _ :: _) => some ⟨.name, stack⟩
  | _ => none

/-- Read the name of an entry. -/
def beginName? (content : Except Fault String) : List Pending → Option (Except Fault Reading)
  | .map entries :: rest =>
    some (content.map fun name => ⟨.colon, .entry entries name :: rest⟩)
  | _ => none

/-- Read one token; nothing if it does not fit. -/
def step? (reading : Reading) (token : Token) : Option (Except Fault Reading) :=
  match reading.expected, token with
  | .value, token => beginValue? reading.stack token
  | .item, .mark ']' => (close? ']' reading.stack).map .ok
  | .item, token => beginValue? reading.stack token
  | .name, .text content => beginName? content reading.stack
  | .firstName, .mark '}' => (close? '}' reading.stack).map .ok
  | .firstName, .text content => beginName? content reading.stack
  | .colon, .mark ':' => some (.ok ⟨.value, reading.stack⟩)
  | .separator, .mark ',' => (next? reading.stack).map .ok
  | .separator, .mark c => (close? c reading.stack).map .ok
  | _, _ => none

/-- Read the tokens of a text that ends at the given offset. -/
def run (finish : Nat) (reading : Reading) : List (Nat × Token) → Except Fault Value
  | [] =>
    match reading.expected with
    | .finish value => .ok value
    | expected => .error ⟨expected.reason, finish⟩
  | (offset, token) :: rest =>
    match reading.step? token with
    | some (.ok next) => run finish next rest
    | some (.error fault) => .error fault
    | none => .error ⟨reading.expected.reason, offset⟩

end Reading

/-- Read a text as one JSON value. -/
def read (text : List Char) : Except Fault Value :=
  if text.head? = some '\ufeff' then .error ⟨.byteOrderMark, 0⟩
  else Reading.run text.length ⟨.value, []⟩ (tokens 0 text)

/-- Read a text as one JSON value, or say what is wrong with it. -/
def parse (text : String) : Except String Value :=
  (read text.toList).mapError fun fault => fault.message text.toList

end Json
end SorobanLint
