import SorobanLint.Order
import SorobanLint.Rule.Basic

/-!
# Unbounded loops

A loop over a collection that the caller supplies is reported unless a comparison on the
collection's length stands somewhere before it in the function.
-/

namespace SorobanLint
namespace UnboundedLoop

open Text

/-- A type whose values have no fixed length. -/
def collection : Pattern :=
  let names : List String :=
    ["Vec", "Map", "Bytes", "BytesN", "HashMap", "BTreeMap", "HashSet", "BTreeSet"]
  .alt
    (.all [.edge, .oneOf names, .edge])
    (.all [.first, .maybe "&", .spaces, .maybe (.seq "mut" .gap), "["])

/-- A `for` loop up to its brace; what it runs over is recorded. -/
def forLoop : Pattern :=
  let inside (c : Char) : Bool := c ≠ '{' && c ≠ ';'
  .all [
    .edge, "for", .gap, .one inside, .few inside, .gap, "in", .gap,
    .capture (.atLeastOne inside), "\x7b"]

/-- A call that runs over the elements of a collection, whose name is recorded. -/
def iteratorCall : Pattern :=
  .all [
    .edge, .capture .word, .spaces, ".", .spaces, .oneOf ["iter", "into_iter"], .spaces,
    "(", .spaces, ")", .spaces, ".", .spaces, .oneOf ["for_each", "fold", "try_for_each"], .spaces,
    "("]

/-- The end of a range at the length of a collection, whose name is recorded. -/
def rangeEnd : Pattern :=
  .all [
    "..", .maybe "=", .spaces, .maybe "&", .spaces, .capture .word, .spaces, ".", .spaces,
    "len", .spaces, "(", .spaces, ")"]

/-- A collection at the beginning of what a loop runs over; its name is recorded. -/
def directSource : Pattern :=
  .all [.spaces, .maybe "&", .spaces, .maybe (.seq "mut" .gap), .capture .word]

/-- The name of the collection that a `for` loop runs over; nothing if it takes only so many. -/
def sourceName? (source : List Char) : Option (List Char) :=
  if contains ".take(".toList (source.filter (· ≠ ' ')) then none
  else
    match rangeEnd.search? source with
    | some found => some found.captured
    | none => (directSource.match? source).map (·.captured)

/-- A loop: where it begins, and the name of the collection it runs over. -/
structure Loop where
  /-- Where the loop begins. -/
  start : Place
  /-- The name of the collection. -/
  name : List Char

namespace Loop

/-- The order of the text, and of names where two loops begin at one place. -/
def precedes (a b : Loop) : Bool :=
  a.start.offset < b.start.offset ||
    a.start.offset = b.start.offset && String.ofList a.name ≤ String.ofList b.name

/-- The loops in a text, in order. -/
def all (code : List Char) : List Loop :=
  let fors := (forLoop.findAll code).filterMap fun found =>
    (sourceName? found.captured).map (⟨found.start, ·⟩)
  let calls := (iteratorCall.findAll code).map fun found => ⟨found.start, found.captured⟩
  Order.sort precedes (fors ++ calls)

end Loop

/-- The length of a collection. -/
def lengthOf (name : List Char) : Pattern :=
  .all [.edge, .text name, .spaces, ".", .spaces, "len", .spaces, "(", .spaces, ")"]

/-- A sign of comparison. -/
def comparison : Pattern :=
  .oneOf ["<=", ">=", "<", ">", "=="]

/-- Whether the length of a collection is compared in the text. -/
def isCapped (name code : List Char) : Bool :=
  (Pattern.all [lengthOf name, .spaces, comparison]).occursIn code ||
    (Pattern.all [comparison, .spaces, lengthOf name]).occursIn code

/-- The names of the parameters that are collections. -/
def unboundedNames (function : Function) : List (List Char) :=
  (function.params.filter fun param => collection.occursIn param.typeName.toList).map
    (·.name.toList)

/-- The loops of a function that are to be reported. -/
def reported (unbounded : List (List Char)) (code : List Char) : List Loop :=
  (Loop.all code).filter fun loop =>
    unbounded.contains loop.name && !isCapped loop.name loop.start.textBefore

/-- One finding for each loop over a parameter whose length is not compared before. -/
def functionFindings (function : Function) : List Finding :=
  match unboundedNames function with
  | [] => []
  | unbounded => (reported unbounded function.code).map fun loop =>
    let name := String.ofList loop.name
    { description :=
        s!"Loop in '{function.name}' iterates over caller-supplied '{name}' without a length limit"
      line := function.lineAt loop.start
      variableName := name
      suggestion :=
        s!"Check `{name}.len()` against a maximum before iterating, or paginate the input" }

/-- The findings about all functions. -/
def findings (contract : Contract) : List Finding :=
  contract.functions.flatMap functionFindings

end UnboundedLoop
end SorobanLint
