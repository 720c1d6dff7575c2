import SorobanLint.Proofs.Brackets.Group
import SorobanLint.Proofs.Render.Balance

/-!
# Lists in angle brackets

The search for the end of a list in angle brackets passes over the whole list of types and stops
behind the bracket that closes it (`skipAngles?_group`): above the opening bracket no visit leaves
the stack empty, whatever arrows, stacked closers and other groups the types hold.
-/

namespace SorobanLint

open Text

namespace Bracket

variable {text inner : List Char} {pos stop : Nat}

/-- The offset behind the list in angle brackets that begins at the given position of the text. -/
def skipAnglesAt? (text : List Char) (pos : Nat) : Option Nat :=
  (skipAngles? (text.drop pos)).map (pos + ·)

/-- The last bracket of a list is closed. -/
def endsAngles (visit : Visit) : Bool :=
  visit.char = '>' && visit.after = []

theorem not_endsAngles_of_within {kind : Bracket} {base : List Bracket} (visit : Visit)
    (within : visit.Within (kind :: base)) : endsAngles visit = false := by
  have deeper : visit.after ≠ [] := by
    intro settled
    have above := within.after_above
    rw [settled, List.suffix_nil] at above
    contradiction
  simp [endsAngles, deeper]

/-- A group that a walk crosses above its opening bracket is skipped as a whole. -/
theorem skipAngles?_group {c last : Char} {behind : List Char} (inner_eq : inner = c :: behind)
    (not_equals : c ≠ '=') (not_angle : c ≠ '<') (closes : closesAngle (some last) = true)
    {post : List Char}
    (crosses : Crosses (Visit.Within [angle]) [angle] (some '<') inner ('>' :: post) [angle]
      (some last)) :
    skipAngles? ('<' :: (inner ++ '>' :: post)) = some (inner.length + 2) := by
  have opened : step [] none '<' (inner ++ '>' :: post).head? = [angle] := by
    rw [inner_eq]
    simp [step, opensAngle, not_equals, not_angle]
  have closed : step [angle] (some last) '>' post.head? = [] := by
    simp [step, closes, dropAngle]
  have onward : stopFrom? endsAngles [angle] (some '<') (inner ++ '>' :: post) =
      some ⟨inner, ⟨'>', [angle], []⟩, post⟩ := by
    rw [crosses.stopFrom?_eq not_endsAngles_of_within, stopFrom?, Visit.of, closed]
    simp [endsAngles]
  change (stopFrom? endsAngles [] none _).map _ = _
  rw [stopFrom?, Visit.of, opened, onward]
  simp [endsAngles]

/-- A list of balanced entries is skipped as a whole. -/
theorem skipAngles?_commaList {entry : List Char} {entries : List (List Char)}
    (balanced : ∀ item ∈ entry :: entries, Balanced item) (post : List Char) :
    skipAngles? ('<' :: (commaList (entry :: entries) ++ '>' :: post)) =
      some ((commaList (entry :: entries)).length + 2) := by
  obtain ⟨last, solid, crosses⟩ := crosses_commaList balanced [angle] (some '<') ('>' :: post)
  obtain ⟨d, rfl, closes⟩ := solid (List.cons_ne_nil _ _)
  obtain ⟨c, rest, entry_eq, not_equals, not_angle⟩ := (balanced entry List.mem_cons_self).opens
  obtain ⟨behind, list_eq⟩ := commaList_cons entry entries
  have inner_eq : commaList (entry :: entries) = c :: (rest ++ behind) := by
    rw [list_eq, entry_eq, List.cons_append]
  exact skipAngles?_group inner_eq not_equals not_angle closes crosses

/-- An offset that is found lies behind the position and behind a closing bracket of the text. -/
theorem closer_of_skipAnglesAt? (found : skipAnglesAt? text pos = some stop) :
    pos < stop ∧ stop ≤ text.length ∧ text[stop - 1]? = some '>' := by
  obtain ⟨offset, skipped, rfl⟩ := Option.map_eq_some_iff.mp found
  obtain ⟨place, stopped, rfl⟩ := Option.map_eq_some_iff.mp skipped
  have closer : place.visit.char = '>' := by
    have hit := hit_of_stopFrom? stopped
    simp only [Bool.and_eq_true, decide_eq_true_eq] at hit
    exact hit.1
  have rest_eq : text.drop pos = place.before ++ '>' :: place.after := by
    rw [← closer]
    exact append_of_stopFrom? stopped
  have length_eq := congrArg List.length rest_eq
  rw [List.length_drop, List.length_append, List.length_cons] at length_eq
  refine ⟨by omega, by omega, ?_⟩
  rw [show pos + (place.before.length + 1) - 1 = pos + place.before.length by omega,
    ← List.getElem?_drop, rest_eq, List.getElem?_append_right le_rfl, Nat.sub_self,
    List.getElem?_cons_zero]

/-- A list of types in angle brackets is skipped up to the bracket that closes it, wherever the list
stands; and every offset that a search gives lies behind such a bracket. -/
theorem skipAnglesAt?_types :
    (∀ (pre post : List Char) (type : TypeExpr) (types : List TypeExpr),
      skipAnglesAt? (pre ++ '<' :: (commaList ((type :: types).map TypeExpr.text) ++ '>' :: post))
          pre.length =
        some (pre.length + (commaList ((type :: types).map TypeExpr.text)).length + 2)) ∧
    ∀ (text : List Char) (pos stop : Nat), skipAnglesAt? text pos = some stop →
      pos < stop ∧ stop ≤ text.length ∧ text[stop - 1]? = some '>' := by
  refine ⟨?_, fun _ _ _ => closer_of_skipAnglesAt?⟩
  intro pre post type types
  have balanced : ∀ entry ∈ (type :: types).map TypeExpr.text, Balanced entry :=
    List.forall_mem_map.mpr fun type _ => type.balanced
  rw [List.map_cons] at balanced ⊢
  rw [skipAnglesAt?, List.drop_left, skipAngles?_commaList balanced, Option.map_some,
    Nat.add_assoc]

/-- Stacked closers and an arrow in the list of a path end nothing. -/
theorem skipAnglesAt?_types_turbofish :
    skipAnglesAt? "get::<V<V<A>>, fn(A) -> B>(x)".toList 5 = some 26 ∧
      5 < 26 ∧ 26 ≤ "get::<V<V<A>>, fn(A) -> B>(x)".toList.length ∧
      "get::<V<V<A>>, fn(A) -> B>(x)".toList[26 - 1]? = some '>' := by
  let name (c : Char) (start : isIdentStart c = true) : IdentPath :=
    ⟨⟨c, [], start, List.forall_mem_nil _⟩, []⟩
  let a : TypeExpr := .named (name 'A' rfl) []
  let vectors : TypeExpr := .named (name 'V' rfl) [.named (name 'V' rfl) [a]]
  let function : TypeExpr := .function [a] (.named (name 'B' rfl) [])
  have skipped : skipAnglesAt? "get::<V<V<A>>, fn(A) -> B>(x)".toList 5 = some 26 :=
    skipAnglesAt?_types.1 "get::".toList "(x)".toList vectors [function]
  exact ⟨skipped, skipAnglesAt?_types.2 _ _ _ skipped⟩

end Bracket
end SorobanLint
