import SorobanLint.Proofs.Brackets.Real

/-!
# Brackets open behind a text

Read on its own, with nothing but its real brackets in view, a text leaves some brackets open and
has misfits: closers that do not fit the innermost open bracket.  The first misfit is where a run
through the real brackets is stuck (`first_misfit_iff`), and up to there the open brackets are those
that have no partner (`opens_openBrackets_iff`).
-/

namespace SorobanLint
namespace Bracket

variable {stack kinds : List Bracket} {c : Char} {i : Nat} {s t text : List Char}

/-- Whether the character is a real bracket. -/
def isReal (c : Char) : Bool :=
  ['(', ')', '[', ']', '\x7b', '\x7d'].contains c

/-- The real brackets open behind a character; a closer that does not fit the innermost one is
passed over. -/
def openStep (stack : List Bracket) (c : Char) : List Bracket :=
  (realStep? stack c).getD stack

/-- The real brackets open behind a text, innermost first. -/
def openBrackets (text : List Char) : List Bracket :=
  text.foldl openStep []

/-- At the offset stands a closer that does not fit the innermost bracket open in front of it, or
that finds none open. -/
def MisfitAt (text : List Char) (offset : Nat) : Prop :=
  ∃ kind ∈ text[offset]?.bind closed?, (openBrackets (text.take offset)).head? ≠ some kind

instance (text : List Char) (offset : Nat) : Decidable (MisfitAt text offset) :=
  inferInstanceAs (Decidable (∃ kind ∈ text[offset]?.bind closed?, _))

theorem realStep?_eq_none_iff :
    realStep? stack c = none ↔ ∃ kind ∈ closed? c, stack.head? ≠ some kind := by
  cases opens : opened? c with
  | some kind => simp [realStep?_opener opens, closed?_of_opened? opens]
  | none =>
      cases closes : closed? c with
      | some kind => simp [realStep?_closer closes]
      | none => simp [realStep?_other opens closes]

theorem openStep_of_realStep? (step_eq : realStep? stack c = some kinds) :
    openStep stack c = kinds := by
  rw [openStep, step_eq, Option.getD_some]

theorem foldl_openStep_of_realRun? (run : realRun? stack s = some kinds) :
    s.foldl openStep stack = kinds := by
  induction s generalizing stack with
  | nil => exact Option.some.inj run
  | cons c s ih =>
      rw [realRun?, Option.bind_eq_some_iff] at run
      obtain ⟨after, step_eq, onward⟩ := run
      rw [List.foldl_cons, openStep_of_realStep? step_eq]
      exact ih onward

theorem openBrackets_take_succ (here : text[i]? = some c) :
    openBrackets (text.take (i + 1)) = openStep (openBrackets (text.take i)) c := by
  rw [openBrackets, List.take_add_one, here, List.foldl_append]
  rfl

theorem realRun?_concat (stack : List Bracket) (s : List Char) (c : Char) :
    realRun? stack (s ++ [c]) = (realRun? stack s).bind fun kinds => realStep? kinds c := by
  rw [realRun?_append]
  refine congrArg _ (funext fun kinds => ?_)
  exact Option.bind_fun_some _

theorem realRun?_take_succ (here : text[i]? = some c) :
    realRun? stack (text.take (i + 1)) =
      (realRun? stack (text.take i)).bind fun kinds => realStep? kinds c := by
  rw [List.take_add_one, here]
  exact realRun?_concat stack (text.take i) c

/-- No closer in front of an offset is a misfit exactly if the real brackets run up to there. -/
theorem forall_not_misfitAt_iff :
    (∀ j < i, ¬MisfitAt text j) ↔
      realRun? [] (text.take i) = some (openBrackets (text.take i)) := by
  induction i with
  | zero => simp [realRun?, openBrackets]
  | succ i ih =>
      rw [Nat.forall_lt_succ_right, ih]
      cases here : text[i]? with
      | none =>
          have same : text.take (i + 1) = text.take i := by simp [List.take_add_one, here]
          simp [MisfitAt, here, same]
      | some c =>
          have fits_iff : ¬MisfitAt text i ↔
              realStep? (openBrackets (text.take i)) c ≠ none := by
            rw [Ne, realStep?_eq_none_iff, MisfitAt, here, Option.bind_some]
          rw [realRun?_take_succ here, openBrackets_take_succ here, fits_iff,
            Option.ne_none_iff_exists']
          constructor
          · rintro ⟨run, kinds, step_eq⟩
            rw [run, Option.bind_some, openStep_of_realStep? step_eq, step_eq]
          · intro run
            obtain ⟨kinds, front, step_eq⟩ := Option.bind_eq_some_iff.mp run
            obtain rfl := foldl_openStep_of_realRun? front
            exact ⟨front, _, step_eq⟩

/-- The first misfit is the closer that stops a run through the real brackets. -/
theorem first_misfit_iff (here : text[i]? = some c) :
    (MisfitAt text i ∧ ∀ j < i, ¬MisfitAt text j) ↔
      ∃ kinds, realRun? [] (text.take i) = some kinds ∧ realStep? kinds c = none := by
  rw [forall_not_misfitAt_iff, MisfitAt, here, Option.bind_some, ← realStep?_eq_none_iff]
  constructor
  · rintro ⟨stuck, run⟩
    exact ⟨_, run, stuck⟩
  · rintro ⟨kinds, run, stuck⟩
    obtain rfl := foldl_openStep_of_realRun? run
    exact ⟨stuck, run⟩

theorem realStep?_of_not_isReal (other : isReal c = false) (stack : List Bracket) :
    realStep? stack c = some stack := by
  simp only [isReal, List.contains_cons, List.contains_nil, Bool.or_eq_false_iff,
    beq_eq_false_iff_ne, Bool.or_false] at other
  exact realStep?_other (by simp [opened?, other]) (by simp [closed?, other]) stack

theorem realRun?_filter_isReal (stack : List Bracket) (s : List Char) :
    realRun? stack (s.filter isReal) = realRun? stack s := by
  induction s generalizing stack with
  | nil => rfl
  | cons c s ih =>
      cases real_c : isReal c with
      | true =>
          rw [List.filter_cons_of_pos real_c, realRun?, realRun?]
          exact congrArg _ (funext ih)
      | false =>
          rw [List.filter_cons_of_neg (by simp [real_c]), realRun?,
            realStep?_of_not_isReal real_c, Option.bind_some, ih]

/-! ## Open brackets and their partners -/

/-- The given brackets, innermost first, are open behind the text: between their openers, in front
of the first and behind the last, brackets pair up. -/
inductive Opens : List Bracket → List Char → Prop where
  | nil {text : List Char} (nested : WellNested text) : Opens [] text
  | cons {stack : List Bracket} {before inner : List Char} {opener : Char} {kind : Bracket}
      (outside : Opens stack before) (opens : opened? opener = some kind)
      (inside : WellNested inner) : Opens (kind :: stack) (before ++ opener :: inner)

theorem Opens.append (front : Opens stack s) (back : WellNested t) : Opens stack (s ++ t) := by
  cases front with
  | nil nested => exact .nil (nested.append_iff.mpr back)
  | cons outside opens inside =>
      rw [List.append_assoc, List.cons_append]
      exact .cons outside opens (inside.append_iff.mpr back)

theorem opens_of_realRun? (run : realRun? [] text = some stack) : Opens stack text := by
  induction text using List.reverseRecOn generalizing stack with
  | nil =>
      obtain rfl := Option.some.inj run
      exact .nil .nil
  | append_singleton s c ih =>
      rw [realRun?_concat, Option.bind_eq_some_iff] at run
      obtain ⟨kinds, front, last⟩ := run
      cases opens : opened? c with
      | some kind =>
          rw [realStep?_opener opens] at last
          obtain rfl := Option.some.inj last
          exact .cons (ih front) opens .nil
      | none =>
          cases closes : closed? c with
          | some kind =>
              rw [realStep?_closer closes, Option.ite_none_right_eq_some] at last
              obtain ⟨innermost, same⟩ := last
              obtain ⟨below, rfl⟩ := List.head?_eq_some_iff.mp innermost
              obtain rfl := Option.some.inj same
              cases ih front with
              | cons outside opener inside =>
                  rw [List.append_assoc]
                  exact outside.append (.group opener closes inside .nil)
          | none =>
              rw [realStep?_other opens closes] at last
              obtain rfl := Option.some.inj last
              exact (ih front).append (.other opens closes .nil)

theorem Opens.realRun?_eq (opens : Opens stack text) : realRun? [] text = some stack := by
  induction opens with
  | nil nested => exact nested.realRun?_eq []
  | cons _ opens inside ih =>
      rw [realRun?_append, ih, Option.bind_some, realRun?, realStep?_opener opens,
        Option.bind_some, inside.realRun?_eq]

/-- If no closer in front of an offset is a misfit, its open brackets are those that do not pair
up. -/
theorem opens_openBrackets_iff :
    Opens (openBrackets (text.take i)) (text.take i) ↔ ∀ j < i, ¬MisfitAt text j := by
  rw [forall_not_misfitAt_iff]
  exact ⟨Opens.realRun?_eq, opens_of_realRun?⟩

end Bracket
end SorobanLint
