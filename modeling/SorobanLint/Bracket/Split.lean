import SorobanLint.Bracket.Walk
import SorobanLint.Text.Blank

/-!
# Splitting outside brackets

A text is cut at the delimiters that stand outside all brackets.  The slices keep every character
but the delimiters (`intercalate_slices`); the split trims them and drops the empty ones.
-/

namespace SorobanLint
namespace Bracket

open Text

/-- The slices between the delimiters outside all brackets, for a walk that starts behind
`previous` with the given stack. -/
def slicesFrom (isDelimiter : Char → Bool) (stack : List Bracket) (previous : Option Char) :
    List Char → List (List Char)
  | [] => [[]]
  | c :: rest =>
    let after := slicesFrom isDelimiter (step stack previous c rest.head?) (some c) rest
    if isDelimiter c && stack.isEmpty then [] :: after else consFirst c after

/-- The slices of a text between the delimiters outside all brackets. -/
def slices (isDelimiter : Char → Bool) (text : List Char) : List (List Char) :=
  slicesFrom isDelimiter [] none text

/-- The trimmed slices that are not empty. -/
def splitWhere (isDelimiter : Char → Bool) (text : List Char) : List (List Char) :=
  ((slices isDelimiter text).map trim).filter (· ≠ [])

/-- The split at a delimiter given as a text; one that is not a single character never matches. -/
def splitOn (delimiter text : List Char) : List (List Char) :=
  splitWhere (fun c => delimiter = [c]) text

/-- The split at commas. -/
def splitCommas (text : List Char) : List (List Char) :=
  splitWhere (· = ',') text

theorem intercalate_consFirst (d : List Char) (c : Char) {parts : List (List Char)}
    (nonempty : parts ≠ []) : d.intercalate (consFirst c parts) = c :: d.intercalate parts := by
  match parts with
  | [piece] => simp [consFirst]
  | piece :: next :: rest => simp [consFirst, List.intercalate_cons_cons]

theorem slicesFrom_ne_nil (isDelimiter : Char → Bool) (stack : List Bracket)
    (previous : Option Char) (text : List Char) :
    slicesFrom isDelimiter stack previous text ≠ [] := by
  cases text with
  | nil => simp [slicesFrom]
  | cons c rest =>
    rw [slicesFrom]
    split
    · simp
    · exact consFirst_ne_nil c _

theorem intercalate_slices (d : Char) (text : List Char) :
    [d].intercalate (slices (· = d) text) = text := by
  suffices ∀ stack previous, [d].intercalate (slicesFrom (· = d) stack previous text) = text from
    this [] none
  induction text with
  | nil => simp [slicesFrom]
  | cons c rest ih =>
    intro stack previous
    have nonempty := slicesFrom_ne_nil (· = d) (step stack previous c rest.head?) (some c) rest
    rw [slicesFrom]
    split
    next cut =>
      have same : c = d := by simpa using (Bool.and_eq_true_iff.mp cut).1
      obtain ⟨piece, more, shape⟩ := List.exists_cons_of_ne_nil nonempty
      have whole := ih (step stack previous c rest.head?) (some c)
      rw [shape] at whole ⊢
      rw [List.intercalate_cons_cons, whole, same]
      rfl
    next => rw [intercalate_consFirst [d] c nonempty, ih]

end Bracket
end SorobanLint
