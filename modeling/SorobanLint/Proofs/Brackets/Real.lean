import SorobanLint.Proofs.Crossing

/-!
# The real brackets of a text

Parentheses, square brackets and braces are the real brackets.  A walk also keeps angle brackets,
which it takes up and drops by their looks; without them, its stack is the stack of the real
brackets that are open, and a closer is wrong exactly if it does not close the innermost of these
(`realStep?_real`).
-/

namespace SorobanLint
namespace Bracket

variable {stack : List Bracket} {previous next : Option Char} {kind : Bracket} {c : Char}
  {s t text : List Char}

/-! ## Texts whose brackets pair up -/

/-- The real brackets of the text pair up.  All other characters, angle brackets among them, may
stand anywhere. -/
inductive WellNested : List Char → Prop where
  | nil : WellNested []
  | other {c : Char} {rest : List Char} (opens_nothing : opened? c = none)
      (closes_nothing : closed? c = none) (onward : WellNested rest) : WellNested (c :: rest)
  | group {opener closer : Char} {kind : Bracket} {inner rest : List Char}
      (opens : opened? opener = some kind) (closes : closed? closer = some kind)
      (inside : WellNested inner) (onward : WellNested rest) :
      WellNested (opener :: (inner ++ closer :: rest))

/-- The real brackets open behind a character; nothing if it closes another bracket than the
innermost one. -/
def realStep? (stack : List Bracket) (c : Char) : Option (List Bracket) :=
  match opened? c, closed? c with
  | some kind, _ => some (kind :: stack)
  | none, some kind => if stack.head? = some kind then some stack.tail else none
  | none, none => some stack

/-- The real brackets open behind a text; nothing if one of its closers is wrong. -/
def realRun? : List Bracket → List Char → Option (List Bracket)
  | stack, [] => some stack
  | stack, c :: rest => (realStep? stack c).bind fun after => realRun? after rest

theorem closed?_of_opened? (opens : opened? c = some kind) : closed? c = none := by
  rcases eq_of_opened? opens with ⟨rfl, -⟩ | ⟨rfl, -⟩ | ⟨rfl, -⟩ <;> rfl

theorem opened?_of_closed? (closes : closed? c = some kind) : opened? c = none := by
  rcases eq_of_closed? closes with ⟨rfl, -⟩ | ⟨rfl, -⟩ | ⟨rfl, -⟩ <;> rfl

theorem realStep?_opener (opens : opened? c = some kind) (stack : List Bracket) :
    realStep? stack c = some (kind :: stack) := by
  rw [realStep?, opens]

theorem realStep?_closer (closes : closed? c = some kind) (stack : List Bracket) :
    realStep? stack c = if stack.head? = some kind then some stack.tail else none := by
  rw [realStep?, opened?_of_closed? closes, closes]

theorem realStep?_other (opens_nothing : opened? c = none) (closes_nothing : closed? c = none)
    (stack : List Bracket) : realStep? stack c = some stack := by
  rw [realStep?, opens_nothing, closes_nothing]

theorem realRun?_append (stack : List Bracket) (s t : List Char) :
    realRun? stack (s ++ t) = (realRun? stack s).bind fun after => realRun? after t := by
  induction s generalizing stack with
  | nil => rfl
  | cons c s ih =>
      rw [List.cons_append, realRun?, realRun?, Option.bind_assoc]
      exact congrArg _ (funext ih)

/-- A text whose brackets pair up leaves the brackets in front of it open. -/
theorem WellNested.realRun?_eq (nested : WellNested text) (stack : List Bracket) :
    realRun? stack text = some stack := by
  induction nested generalizing stack with
  | nil => rfl
  | other opens_nothing closes_nothing _ ih =>
      rw [realRun?, realStep?_other opens_nothing closes_nothing, Option.bind_some, ih]
  | @group opener closer kind inner rest opens closes _ _ inside onward =>
      have closing : realStep? (kind :: stack) closer = some stack := by
        rw [realStep?_closer closes, List.head?_cons, if_pos rfl, List.tail_cons]
      rw [realRun?, realStep?_opener opens, Option.bind_some, realRun?_append, inside,
        Option.bind_some, realRun?, closing, Option.bind_some, onward]

/-- The text closes the given brackets, innermost first; between the closers, and in front of the
first and behind the last, brackets pair up. -/
def Closes : List Bracket → List Char → Prop
  | [], text => WellNested text
  | kind :: stack, text => ∃ inner closer after, text = inner ++ closer :: after ∧
      closed? closer = some kind ∧ WellNested inner ∧ Closes stack after

theorem Closes.other (opens_nothing : opened? c = none) (closes_nothing : closed? c = none)
    (closes : Closes stack text) : Closes stack (c :: text) := by
  cases stack with
  | nil => exact .other opens_nothing closes_nothing closes
  | cons kind stack =>
      obtain ⟨inner, closer, after, rfl, closing, inside, onward⟩ := closes
      exact ⟨c :: inner, closer, after, rfl, closing,
        .other opens_nothing closes_nothing inside, onward⟩

theorem Closes.opener (opens : opened? c = some kind) (closes : Closes (kind :: stack) text) :
    Closes stack (c :: text) := by
  obtain ⟨inner, closer, after, rfl, closing, inside, onward⟩ := closes
  cases stack with
  | nil => exact .group opens closing inside onward
  | cons outer stack =>
      obtain ⟨between, last, rest, rfl, last_closing, between_nested, behind⟩ := onward
      refine ⟨c :: (inner ++ closer :: between), last, rest, by simp, last_closing, ?_, behind⟩
      exact .group opens closing inside between_nested

theorem closes_of_realRun? (run : realRun? stack text = some []) : Closes stack text := by
  induction text generalizing stack with
  | nil =>
      obtain rfl := Option.some.inj run
      exact .nil
  | cons c text ih =>
      rw [realRun?, Option.bind_eq_some_iff] at run
      obtain ⟨after, step_eq, run⟩ := run
      cases opens : opened? c with
      | some kind =>
          rw [realStep?_opener opens] at step_eq
          obtain rfl := Option.some.inj step_eq
          exact (ih run).opener opens
      | none =>
          cases closes : closed? c with
          | some kind =>
              rw [realStep?_closer closes, Option.ite_none_right_eq_some] at step_eq
              obtain ⟨innermost, same⟩ := step_eq
              obtain ⟨below, rfl⟩ := List.head?_eq_some_iff.mp innermost
              obtain rfl := Option.some.inj same
              exact ⟨[], c, text, rfl, closes, .nil, ih run⟩
          | none =>
              rw [realStep?_other opens closes] at step_eq
              obtain rfl := Option.some.inj step_eq
              exact (ih run).other opens closes

theorem wellNested_iff : WellNested text ↔ realRun? [] text = some [] :=
  ⟨fun nested => nested.realRun?_eq [], closes_of_realRun?⟩

instance (text : List Char) : Decidable (WellNested text) :=
  decidable_of_iff _ wellNested_iff.symm

/-- Behind a text whose brackets pair up, those of the whole pair up if those of the rest do. -/
theorem WellNested.append_iff (front : WellNested s) : WellNested (s ++ t) ↔ WellNested t := by
  rw [wellNested_iff, wellNested_iff, realRun?_append, front.realRun?_eq, Option.bind_some]

/-! ## The real brackets on the stack of a walk -/

/-- The stack without its angle brackets. -/
def real (stack : List Bracket) : List Bracket :=
  stack.filter (· ≠ angle)

theorem real_cons (no_angle : kind ≠ angle) (stack : List Bracket) :
    real (kind :: stack) = kind :: real stack :=
  List.filter_cons_of_pos (by simpa using no_angle)

theorem real_dropAngle (stack : List Bracket) : real (dropAngle stack) = real stack := by
  fun_cases dropAngle stack <;> rfl

/-- Behind the angle brackets on top stands the innermost real bracket. -/
theorem dropAngles_cases (stack : List Bracket) :
    (dropAngles stack = [] ∧ real stack = []) ∨
      ∃ kind below, dropAngles stack = kind :: below ∧ real stack = kind :: real below := by
  induction stack with
  | nil => exact .inl ⟨rfl, rfl⟩
  | cons kind below ih =>
      by_cases same : kind = angle
      · subst same
        exact ih
      · refine .inr ⟨kind, below, ?_, real_cons same below⟩
        exact List.dropWhile_cons_of_neg (by simpa using same)

theorem step_opener (opens : opened? c = some kind) :
    step stack previous c next = kind :: stack := by
  rcases eq_of_opened? opens with ⟨rfl, rfl⟩ | ⟨rfl, rfl⟩ | ⟨rfl, rfl⟩ <;> rfl

theorem step_closer (closes : closed? c = some kind) :
    step stack previous c next =
      if (dropAngles stack).head? = some kind then (dropAngles stack).tail
      else dropAngles stack := by
  rcases eq_of_closed? closes with ⟨rfl, rfl⟩ | ⟨rfl, rfl⟩ | ⟨rfl, rfl⟩ <;> rfl

theorem real_step_other (opens_nothing : opened? c = none) (closes_nothing : closed? c = none) :
    real (step stack previous c next) = real stack := by
  rw [step, opens_nothing, closes_nothing]
  split
  · split <;> rfl
  · split
    · split
      · exact real_dropAngle stack
      · rfl
    · rfl

/-- The real brackets on the stack of a walk are those that are open when nothing else counts, and
the same closers are wrong. -/
theorem realStep?_real (stack : List Bracket) (previous : Option Char) (c : Char)
    (next : Option Char) :
    realStep? (real stack) c =
      if (Visit.of stack previous c next).isWrongCloser then none
      else some (real (step stack previous c next)) := by
  cases opens : opened? c with
  | some kind =>
      have no_angle : kind ≠ angle := by
        rcases eq_of_opened? opens with ⟨-, rfl⟩ | ⟨-, rfl⟩ | ⟨-, rfl⟩ <;> decide
      have right : (Visit.of stack previous c next).isWrongCloser = false := by
        simp [Visit.isWrongCloser, Visit.of, closed?_of_opened? opens]
      rw [realStep?_opener opens, right, step_opener opens, real_cons no_angle]
      rfl
  | none =>
      cases closes : closed? c with
      | some kind =>
          have wrong : (Visit.of stack previous c next).isWrongCloser =
              ((dropAngles stack).head? != some kind) := by
            simp [Visit.isWrongCloser, Visit.of, closes]
          rw [realStep?_closer closes, wrong, step_closer closes]
          rcases dropAngles_cases stack with ⟨stack_eq, real_eq⟩ |
            ⟨top, below, stack_eq, real_eq⟩
          · rw [stack_eq, real_eq]
            rfl
          · rw [stack_eq, real_eq]
            by_cases fits : top = kind <;> simp [fits]
      | none =>
          have right : (Visit.of stack previous c next).isWrongCloser = false := by
            simp [Visit.isWrongCloser, Visit.of, closes]
          rw [realStep?_other opens closes, right, real_step_other opens closes]
          rfl

/-- A walk that meets no wrong closer on a text runs through its real brackets. -/
theorem Crosses.realRun?_eq {calm : Visit → Prop} {after : List Bracket} {last : Option Char}
    {rest : List Char} (crosses : Crosses calm stack previous text rest after last)
    (fits : ∀ visit, calm visit → visit.isWrongCloser = false) :
    realRun? (real stack) text = some (real after) := by
  induction crosses with
  | nil => rfl
  | @cons stack after previous last c text rest visit _ ih =>
      rw [realRun?, realStep?_real stack previous c (text ++ rest).head?, fits _ visit,
        if_neg Bool.false_ne_true, Option.bind_some, ih]

end Bracket
end SorobanLint
