import SorobanLint.Text.Pattern

/-!
# Bindings

What stands in front of an expression that a `let` binds to a name.
-/

namespace SorobanLint

open Text

/-- A `let` with its name, which is recorded, its type perhaps, and the sign of equality, at the
end of a text. -/
def letBinding : Pattern :=
  .all [
    .edge,
    "let",
    .gap,
    .maybe (.seq "mut" .gap),
    .capture .word,
    .spaces,
    .maybe (.seq ":" (.atLeastOne (· ≠ '='))),
    "=",
    .spaces,
    .last]

namespace Place

/-- The `let` on the same line that binds the expression at the place. -/
def binding? (place : Place) : Option Match :=
  letBinding.search? place.lineBefore

end Place
end SorobanLint
