import SorobanLint.Contract.Outline

/-!
# Recovering a contract

A contract is recovered if the scan reaches the end of the source and finds a marked struct, the
first of which names the contract.  A source without any marked struct is reported as such even if
its structure is broken as well.
-/

namespace SorobanLint

open Text

namespace Contract

/-- A marker attribute, other attributes perhaps, and the header of a struct. -/
def markedStruct : Pattern :=
  .all [
    "#[",
    .spaces,
    .maybe (.all ["soroban_sdk", .spaces, "::", .spaces]),
    .oneOf ["contracttype", "contract"],
    .edge,
    .many (· ≠ ']'),
    "]",
    .star (.all [.spaces, "#", .maybe "!", "[", .many (· ≠ ']'), "]"]),
    .spaces,
    .maybe Visibility.mark,
    "struct",
    .edge]

/-- The error for a source in which no struct is marked. -/
def noMarker (path : String) : ParseError :=
  .missingMarker <|
    "could not determine contract name: no #[contracttype] or #[contract] struct in " ++ path

/-- Recover the contract from a source and the name of its file. -/
def parse (source path : String) : Except ParseError Contract :=
  let lines := Line.ofTexts (linesOf source)
  let outline := Outline.scan path lines
  match outline.fault with
  | some (.lostHeader line) => .error (.lostHeader line)
  | some (.unfinished fault) =>
    if markedStruct.occursIn (joinLines (lines.map (·.code))) then
      .error (.invalidStructure fault.message)
    else .error (noMarker path)
  | none =>
    match outline.structs with
    | [] => .error (noMarker path)
    | first :: _ => .ok ⟨first.name, outline.structs, outline.impls, source, path⟩

end Contract
end SorobanLint
