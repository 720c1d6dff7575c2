import SorobanLint.Proofs.Reading

/-!
# Searches in a longer text

A search looks no further than the line feed behind the character at which it stops.  So what it
finds in the first lines of a text it finds in the whole text (`stopFrom?_append`,
`firstGroup_append`), and a block that is closed in them stays closed (`closingLine?_append_right`).
-/

namespace SorobanLint

open Text

namespace Bracket

variable {hit : Visit → Bool} {stack : List Bracket} {previous : Option Char} {s : List Char}
  {stop : Stop}

theorem step_newline (stack : List Bracket) (previous : Option Char) (c : Char) :
    step stack previous c (some '\n') = step stack previous c none := rfl

/-- A search that stops stops there in a longer text, too. -/
theorem stopFrom?_append (found : stopFrom? hit stack previous s = some stop) (t : List Char) :
    stopFrom? hit stack previous (s ++ '\n' :: t) =
      some { stop with after := stop.after ++ '\n' :: t } := by
  induction s generalizing stack previous stop with
  | nil => contradiction
  | cons c s ih =>
      have visit_eq : Visit.of stack previous c (s ++ '\n' :: t).head? =
          Visit.of stack previous c s.head? := by
        cases s with
        | nil => rw [Visit.of, Visit.of, List.nil_append, List.head?_cons, step_newline]; rfl
        | cons d s => rfl
      rw [List.cons_append, stopFrom?, visit_eq]
      rw [stopFrom?] at found
      split at found
      next here =>
        obtain rfl := Option.some.inj found
        rw [if_pos here]
      next elsewhere =>
        obtain ⟨inner, inner_found, rfl⟩ := Option.map_eq_some_iff.mp found
        rw [if_neg elsewhere, ih inner_found]
        rfl

theorem bodyStart?_append (found : bodyStart? s = some stop) (t : List Char) :
    bodyStart? (s ++ '\n' :: t) = some { stop with after := stop.after ++ '\n' :: t } :=
  stopFrom?_append found t

/-- A group, or a closer that does not fit, is the same in a longer text. -/
theorem firstGroup_append (complete : firstGroup s ≠ .incomplete) (t : List Char) :
    firstGroup (s ++ '\n' :: t) =
      match firstGroup s with
      | .found before inner after => .found before inner (after ++ '\n' :: t)
      | other => other := by
  unfold firstGroup at complete ⊢
  cases opened : stop? _ s with
  | none => simp [opened] at complete
  | some head =>
      have opened_later := stopFrom?_append opened t
      rw [← stop?] at opened_later
      simp only [opened, opened_later] at complete ⊢
      split
      next => rfl
      next right_opener =>
        rw [if_neg right_opener] at complete
        cases closed : stopFrom? _ head.visit.after (some '(') head.after with
        | none => simp [closed] at complete
        | some tail =>
            have closed_later := stopFrom?_append closed t
            simp only [closed_later]
            split <;> rfl

/-- A line that closes a block closes it if more lines follow. -/
theorem closingLine?_append_right {depth : Int} {lines : List (List Char)} {last : Nat}
    (closed : closingLine? depth lines = some last) (more : List (List Char)) :
    closingLine? depth (lines ++ more) = some last := by
  induction lines generalizing depth last with
  | nil => contradiction
  | cons line rest ih =>
      rw [closingLine?] at closed
      rw [List.cons_append, closingLine?]
      split at closed
      next => exact closed
      next =>
        obtain ⟨below, found, rfl⟩ := Option.map_eq_some_iff.mp closed
        rw [ih found]
        rfl

end Bracket
end SorobanLint
