import SorobanLint.Proofs.Attributes

/-!
# Attributes as they are written

What peeling takes off the beginning of a text is written there: blanks, and attributes whose square
brackets stand in pairs (`Attribute.exists_leading`).  Behind an attribute that begins a text
stands what is peeled further (`Attribute.exists_written`).
-/

namespace SorobanLint

open Text

namespace Attribute

/-- The square brackets of the text stand in pairs. -/
inductive Paired : List Char → Prop where
  | nil : Paired []
  | other {c : Char} {text : List Char} (not_opener : c ≠ '[') (not_closer : c ≠ ']')
      (onward : Paired text) : Paired (c :: text)
  | group {inner text : List Char} (inside : Paired inner) (onward : Paired text) :
      Paired ('[' :: (inner ++ ']' :: text))

/-- The text is an attribute, with the inner text between its brackets. -/
structure Written (inner text : List Char) : Prop where
  paired : Paired inner
  text_eq : text = '#' :: '[' :: (inner ++ [']']) ∨ text = '#' :: '!' :: '[' :: (inner ++ [']'])

/-- The text consists of attributes and blanks. -/
inductive Leading : List Char → Prop where
  | nil : Leading []
  | blank {c : Char} {text : List Char} (blank : isBlank c = true) (onward : Leading text) :
      Leading (c :: text)
  | mark {inner mark text : List Char} (written : Written inner mark) (onward : Leading text) :
      Leading (mark ++ text)

variable {s text : List Char}

/-- Behind the bracket that closes an attribute, or a group inside one, peeling goes on one level
up. -/
theorem exists_group {depth : Nat} (closed : (peelFrom (some (depth + 1)) s).closed = true) :
    ∃ inner rest, s = inner ++ ']' :: rest ∧ Paired inner ∧
      peelFrom (some (depth + 1)) s = peelFrom (if depth = 0 then none else some depth) rest := by
  induction length : s.length using Nat.strong_induction_on generalizing s depth with
  | _ n ih =>
    cases s with
    | nil => contradiction
    | cons c s =>
        rw [List.length_cons] at length
        by_cases opener : c = '['
        · -- the group ends first, and then the text around it
          subst opener
          have step : peelFrom (some (depth + 1)) ('[' :: s) =
              peelFrom (some (depth + 1 + 1)) s := by
            rw [peelFrom, if_pos rfl]
          rw [step] at closed ⊢
          obtain ⟨inner, rest, rfl, inside, onward⟩ := ih s.length (by omega) closed rfl
          rw [onward, if_neg (Nat.succ_ne_zero depth)] at closed ⊢
          have shorter : rest.length < n := by
            rw [List.length_append, List.length_cons] at length
            omega
          obtain ⟨more, rest, rfl, around, onward⟩ := ih rest.length shorter closed rfl
          exact ⟨'[' :: (inner ++ ']' :: more), rest, by simp, .group inside around, onward⟩
        by_cases closer : c = ']'
        · subst closer
          refine ⟨[], s, rfl, .nil, ?_⟩
          rw [peelFrom, if_neg (by decide), if_pos rfl, Nat.add_sub_cancel]
          cases depth <;> rfl
        · have step : peelFrom (some (depth + 1)) (c :: s) = peelFrom (some (depth + 1)) s := by
            rw [peelFrom, if_neg opener, if_neg closer]
          rw [step] at closed ⊢
          obtain ⟨inner, rest, rfl, inside, onward⟩ := ih s.length (by omega) closed rfl
          exact ⟨c :: inner, rest, rfl, .other opener closer inside, onward⟩

theorem peelFrom_inside? {d : Char} {rest : List Char} (begun : inside? (d :: rest) = some text) :
    peelFrom (some 0) rest = peelFrom (some 1) text := by
  rcases eq_of_inside? begun with s_eq | s_eq
  · obtain ⟨-, rfl⟩ := List.cons.inj s_eq
    rw [peelFrom, if_pos rfl]
  · obtain ⟨-, rfl⟩ := List.cons.inj s_eq
    rw [peelFrom, if_neg (by decide), if_neg (by decide), peelFrom, if_pos rfl]

/-- The attribute at the beginning of a text is written there, and the text behind it is peeled
on. -/
theorem exists_written (begun : inside? s = some text) (closed : (peel s).closed = true) :
    ∃ inner mark behind, Written inner mark ∧ s = mark ++ behind ∧
      name? text = name? inner ∧
      peel s = { peel behind with names := (name? inner).toList ++ (peel behind).names } := by
  obtain ⟨rest, rfl⟩ : ∃ rest, s = '#' :: rest := by
    rcases eq_of_inside? begun with rfl | rfl <;> exact ⟨_, rfl⟩
  have peeled : peel ('#' :: rest) = { peelFrom (some 1) text with
      names := (name? text).toList ++ (peelFrom (some 1) text).names } := by
    simp only [peel, peelFrom, if_neg (show ¬isBlank '#' = true by decide), begun,
      peelFrom_inside? begun]
  rw [peeled] at closed ⊢
  obtain ⟨inner, behind, rfl, paired, onward⟩ := @exists_group _ 0 closed
  rw [if_pos rfl] at onward
  have name_eq : name? (inner ++ ']' :: behind) = name? inner := by
    rw [name?_eq, path_append_bracket, name?_eq]
  rcases eq_of_inside? begun with s_eq | s_eq
  · refine ⟨inner, _, behind, ⟨paired, .inl rfl⟩, by simp [s_eq], name_eq, ?_⟩
    rw [onward, name_eq, peel]
  · refine ⟨inner, _, behind, ⟨paired, .inr rfl⟩, by simp [s_eq], name_eq, ?_⟩
    rw [onward, name_eq, peel]

theorem Written.length_pos {inner mark : List Char} (written : Written inner mark) :
    0 < mark.length := by
  rcases written.text_eq with rfl | rfl <;> exact Nat.succ_pos _

/-- What peeling takes off the beginning of a text are attributes and blanks. -/
theorem exists_leading (closed : (peel s).closed = true) :
    ∃ front, s = front ++ (peel s).rest ∧ Leading front := by
  induction length : s.length using Nat.strong_induction_on generalizing s with
  | _ n ih =>
    cases s with
    | nil => exact ⟨[], rfl, .nil⟩
    | cons c s =>
        cases blank : isBlank c with
        | true =>
            have step : peel (c :: s) = peel s := by rw [peel, peelFrom, if_pos blank, peel]
            rw [step] at closed ⊢
            obtain ⟨front, s_eq, leading⟩ := ih s.length (by simp [← length]) closed rfl
            exact ⟨c :: front, congrArg (c :: ·) s_eq, .blank blank leading⟩
        | false =>
            cases begun : inside? (c :: s) with
            | none =>
                refine ⟨[], ?_, .nil⟩
                simp only [peel, peelFrom, blank, begun, Bool.false_eq_true, if_false,
                  List.nil_append]
            | some text =>
                obtain ⟨inner, mark, behind, written, s_eq, -, peeled⟩ :=
                  exists_written begun closed
                rw [peeled] at closed ⊢
                have shorter : behind.length < n := by
                  rw [← length, s_eq, List.length_append]
                  have pos := written.length_pos
                  omega
                obtain ⟨front, behind_eq, leading⟩ := ih behind.length shorter closed rfl
                refine ⟨mark ++ front, ?_, .mark written leading⟩
                rw [s_eq, List.append_assoc, ← behind_eq]

end Attribute
end SorobanLint
