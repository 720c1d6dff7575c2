import SorobanLint.Bracket.Group
import SorobanLint.Order
import SorobanLint.Rule.Basic
import SorobanLint.Rule.Binding

/-!
# Repeated storage access

A lookup is a read of the ledger's storage, `env.storage().instance().get(…)`, or of a map of the
instance, `self.map.get(…)`.  The same lookup twice in one function is reported at its second
place, unless the first one is bound by `let`.  Lookups are compared without their blanks.
-/

namespace SorobanLint
namespace RepeatedStorage

open Text

/-- A read of one of the three storage tiers, up to `get`. -/
def ledgerRead : Pattern :=
  let call (name : Pattern) : Pattern := .all [name, .spaces, "(", .spaces, ")", .spaces]
  .all [
    .edge, .word, .spaces, ".", .spaces,
    call "storage", ".", .spaces,
    call (.oneOf ["instance", "persistent", "temporary"]), ".", .spaces,
    "get", .edge]

/-- A read of a map of the instance, up to `get`; the map's name is recorded. -/
def mapRead : Pattern :=
  .all [
    .edge, "self", .spaces, ".", .spaces, .capture .word, .spaces, ".", .spaces, "get", .edge]

/-- The beginning of explicit type arguments. -/
def turbofish : Pattern := .all [.spaces, "::", .spaces, "<"]

/-- The beginning of a call. -/
def call : Pattern := .seq .spaces "("

/-- The place so many characters further on. -/
def advance : Nat → Place → Place
  | n + 1, ⟨before, c :: rest⟩ => advance n ⟨c :: before, rest⟩
  | _, place => place

/-- The place behind explicit type arguments, or the same place if there are none; nothing if they
are never closed. -/
def afterTypeArgs? (place : Place) : Option Place :=
  match turbofish.matchAt? place with
  | none => some place
  | some found =>
    (Bracket.skipAngles? ('<' :: found.stop.after)).map fun offset =>
      advance (offset - 1) found.stop

/-- The place behind the opening parenthesis of the call that a lookup makes. -/
def callPlace? (found : Match) : Option Place := do
  let place ← afterTypeArgs? found.stop
  return (← call.matchAt? place).stop

/-- A lookup in a function. -/
structure Lookup where
  /-- The whole call without blanks. -/
  expression : List Char
  /-- Where it begins. -/
  start : Place
  /-- What is looked up: the map's name, or the key. -/
  label : List Char

namespace Lookup

/-- Whether a `let` on the same line binds the value. -/
def isCached (lookup : Lookup) : Bool :=
  lookup.start.binding?.isSome

/-- The lookup at a match, if a call with balanced parentheses follows. -/
def ofMatch? (found : Match) : Option Lookup := do
  let place ← callPlace? found
  let args ← Bracket.insideParens? ('(' :: place.after)
  let label := match found.group with
    | some _ => found.captured
    | none => trim ((trim args).dropWhile (· = '&'))
  return ⟨withoutBlanks (found.start.upTo place ++ args ++ [')']), found.start, label⟩

/-- The lookups in a text, those of the ledger in front of those of maps. -/
def all (code : List Char) : List Lookup :=
  (ledgerRead.findAll code ++ mapRead.findAll code).filterMap ofMatch?

end Lookup

/-- Lookups with one expression, together with that expression. -/
structure LookupGroup where
  /-- The common expression. -/
  expression : List Char
  /-- Its lookups in the order of the text. -/
  lookups : List Lookup

namespace LookupGroup

/-- The lookups by expression, in the order in which the expressions first occur in the list. -/
def collect (lookups : List Lookup) : List LookupGroup :=
  (lookups.map (·.expression)).eraseDups.map fun expression =>
    ⟨expression, Order.sort (fun a b => a.start.offset ≤ b.start.offset)
      (lookups.filter (·.expression = expression))⟩

/-- The finding about a group: there is one if the first of at least two lookups is not cached. -/
def finding? (function : Function) (group : LookupGroup) : Option Finding :=
  match group.lookups with
  | first :: second :: _ =>
    if first.isCached then none
    else some {
      description :=
        let expression := String.ofList group.expression
        s!"Storage lookup `{expression}` is evaluated {group.lookups.length} times in '{function.name}'"
      line := function.lineAt second.start
      variableName := String.ofList second.label
      suggestion := "Read the value once into a local binding and reuse it" }
  | _ => none

end LookupGroup

/-- The findings about one function. -/
def functionFindings (function : Function) : List Finding :=
  (LookupGroup.collect (Lookup.all function.code)).filterMap (LookupGroup.finding? function)

/-- The findings about all functions, by line. -/
def findings (contract : Contract) : List Finding :=
  Order.sort (fun a b => a.line ≤ b.line) (contract.functions.flatMap functionFindings)

end RepeatedStorage
end SorobanLint
