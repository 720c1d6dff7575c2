import SorobanLint.Proofs.Reading

/-!
# Positions in indexed lines

A parser that keeps its place as the index of a line and a column reads every line and every
character by its index.  A computation in `Access` has no result where an index is out of range.
The text ahead of a position is that of its line behind the column and of the lines below
(`Ahead`); it may be read in pieces, and behind each of them the position is in range
(`Ahead.spans`).
-/

namespace SorobanLint

open Text

/-- The index of a line, and of a column of that line. -/
structure Position where
  /-- The index of the line. -/
  line : Nat
  /-- The index of the column. -/
  column : Nat
deriving DecidableEq, Repr

namespace Position

/-- The position of the character behind one that stands at the given position. -/
def next (position : Position) (c : Char) : Position :=
  if c = '\n' then ⟨position.line + 1, 0⟩ else ⟨position.line, position.column + 1⟩

/-- The position behind a text that begins at the given one. -/
def behind (position : Position) (text : List Char) : Position :=
  text.foldl next position

variable {s : List Char}

theorem behind_append (position : Position) (s t : List Char) :
    position.behind (s ++ t) = (position.behind s).behind t :=
  List.foldl_append

theorem behind_of_feedless (feedless : '\n' ∉ s) (position : Position) :
    position.behind s = ⟨position.line, position.column + s.length⟩ := by
  induction s generalizing position with
  | nil => rfl
  | cons c s ih =>
      obtain ⟨other, feedless⟩ := not_or.mp (mt List.mem_cons.mpr feedless)
      rw [behind, List.foldl_cons, ← behind, ih feedless, next, if_neg (Ne.symm other),
        List.length_cons, Nat.add_assoc, Nat.add_comm 1]

theorem behind_newline (position : Position) (s : List Char) :
    position.behind ('\n' :: s) = behind ⟨position.line + 1, 0⟩ s := rfl

theorem line_behind (position : Position) (s : List Char) :
    (position.behind s).line = position.line + lineFeeds s := by
  induction s generalizing position with
  | nil => rfl
  | cons c s ih =>
      rw [behind, List.foldl_cons, ← behind, ih, next]
      split
      next feed =>
        rw [feed, lineFeeds_cons_newline]
        dsimp only
        omega
      next other => rw [lineFeeds_cons_of_ne other]

theorem behind_terminated {lines : List (List Char)} (feedless : ∀ line ∈ lines, '\n' ∉ line)
    (nonempty : lines ≠ []) (position : Position) :
    position.behind (terminated lines) = ⟨position.line + lines.length, 0⟩ := by
  induction lines generalizing position with
  | nil => contradiction
  | cons line lines ih =>
      rw [List.forall_mem_cons] at feedless
      rw [terminated_cons, behind_append, behind_of_feedless feedless.1, behind_newline]
      cases lines with
      | nil => rfl
      | cons next lines =>
          rw [ih feedless.2 (List.cons_ne_nil next lines)]
          simp only [List.length_cons, mk.injEq, and_true]
          omega

/-- The width of the last line of a text. -/
def lastWidth (text : List Char) : Nat :=
  (text.reverse.takeWhile (· ≠ '\n')).length

end Position

/-- A computation that reads lists by index: without a result if an index is out of range or a
text is not read a second time as it was read before; else with a value or a fault of the source. -/
abbrev Access (α : Type) := ExceptT StructureFault Option α

namespace Access

/-- The element of a list with the given index. -/
def get {α : Type} (list : List α) (index : Nat) : Access α :=
  liftM list[index]?

theorem get_append {α : Type} (front rest : List α) (element : α) :
    get (front ++ element :: rest) front.length = pure element := by
  rw [get, List.getElem?_append_right (Nat.le_refl _), Nat.sub_self]
  rfl

/-- The character of a line in front of the given column; none in front of the first. -/
def previous (text : List Char) (column : Nat) : Access (Option Char) :=
  if column = 0 then pure none else some <$> get text (column - 1)

theorem previous_append (front rest : List Char) :
    previous (front ++ rest) front.length = pure front.getLast? := by
  rcases List.eq_nil_or_concat front with rfl | ⟨front, c, rfl⟩
  · rfl
  · rw [List.concat_eq_append, previous, List.length_append, List.length_singleton,
      if_neg (Nat.succ_ne_zero front.length), Nat.add_sub_cancel, List.append_assoc,
      List.singleton_append, get_append, List.getLast?_concat]
    rfl

variable {α β γ : Type}

/-- A result that is reached. -/
def of (outcome : Except StructureFault α) : Access α :=
  ExceptT.mk (some outcome)

/-- The computation reaches the given outcome. -/
def Agrees (access : Access α) (outcome : Except Fault α) : Prop :=
  access.run.map (Except.mapError .unfinished) = some outcome

theorem agrees_of (outcome : Except StructureFault α) :
    Agrees (of outcome) (outcome.mapError .unfinished) := rfl

theorem agrees_of_map (outcome : Except StructureFault α) (f : α → β) :
    Agrees (of (outcome.map f)) ((outcome.mapError .unfinished).map f) := by
  cases outcome <;> exact rfl

/-- Computations that agree up to the values they go on with go on to agree. -/
theorem Agrees.bind {access : Access β} {outcome : Except Fault α} {f : α → β}
    {next : β → Access γ} {onward : α → Except Fault γ} (agrees : access.Agrees (outcome.map f))
    (later : ∀ value, outcome = .ok value → (next (f value)).Agrees (onward value)) :
    (access >>= next).Agrees (outcome >>= onward) := by
  obtain ⟨reached, run_eq, same⟩ := Option.map_eq_some_iff.mp agrees
  have access_eq : access = of reached := run_eq
  rw [access_eq]
  cases reached with
  | error fault =>
      cases outcome with
      | error other =>
          obtain rfl := Except.error.inj same
          rfl
      | ok value => contradiction
  | ok result =>
      cases outcome with
      | error other => contradiction
      | ok value =>
          obtain rfl := Except.ok.inj same
          exact later value rfl

theorem Agrees.andThen {access : Access α} {outcome : Except Fault α} {next : α → Access γ}
    {onward : α → Except Fault γ} (agrees : access.Agrees outcome)
    (later : ∀ value, outcome = .ok value → (next value).Agrees (onward value)) :
    (access >>= next).Agrees (outcome >>= onward) :=
  Agrees.bind (f := id) (by rwa [Except.map_id]) later

theorem Agrees.map {access : Access α} {outcome : Except Fault α} (agrees : access.Agrees outcome)
    (f : α → β) : (access >>= fun value => pure (f value)).Agrees
      (outcome >>= fun value => pure (f value)) := by
  obtain ⟨reached, run_eq, rfl⟩ := Option.map_eq_some_iff.mp agrees
  have access_eq : access = of reached := run_eq
  rw [access_eq]
  cases reached <;> exact rfl

end Access

namespace Indexed

/-! ## The text ahead -/

/-- The text from the position on, up to the end of the line with the index `limit`. -/
def Ahead (codes : List (List Char)) (limit : Nat) (position : Position) (text : List Char) :
    Prop :=
  ∃ (above : List (List Char)) (left right : List Char) (below beyond : List (List Char)),
    codes = above ++ (left ++ right) :: (below ++ beyond) ∧
    position = ⟨above.length, left.length⟩ ∧ limit = above.length + below.length ∧
    text = joinLines (right :: below)

section Ahead

variable {codes : List (List Char)} {limit : Nat} {position : Position} {text : List Char}

/-- The text stands between the positions: it is a piece of one line, or the end of a line, the
lines below it and the beginning of another. -/
def Spans (codes : List (List Char)) (position : Position) (text : List Char) (stop : Position) :
    Prop :=
  (∃ (above : List (List Char)) (left right : List Char) (below : List (List Char)),
    codes = above ++ (left ++ text ++ right) :: below ∧ position = ⟨above.length, left.length⟩ ∧
    stop = ⟨above.length, left.length + text.length⟩) ∨
  ∃ (above : List (List Char)) (left right : List Char) (lines : List (List Char))
    (inside rest : List Char) (below : List (List Char)),
    codes = above ++ (left ++ right) :: (lines ++ (inside ++ rest) :: below) ∧
    position = ⟨above.length, left.length⟩ ∧ text = joinLines (right :: (lines ++ [inside])) ∧
    stop = ⟨above.length + lines.length + 1, inside.length⟩

/-- The text ahead may be read in two pieces. -/
theorem Ahead.spans {before after : List Char} (feedless : ∀ code ∈ codes, '\n' ∉ code)
    (ahead : Ahead codes limit position (before ++ after)) :
    Spans codes position before (position.behind before) ∧
      Ahead codes limit (position.behind before) after := by
  obtain ⟨above, left, right, below, beyond, rfl, rfl, rfl, text_eq⟩ := ahead
  rw [List.forall_mem_append, List.forall_mem_cons, List.forall_mem_append] at feedless
  obtain ⟨-, line_feedless, below_feedless, -⟩ := feedless
  rw [List.mem_append, not_or] at line_feedless
  obtain ⟨passed, inside, rest, lower, lines_eq, rfl, rfl⟩ :=
    cut_joinLines (List.cons_ne_nil right below) text_eq.symm
  cases passed with
  | nil =>
      obtain ⟨rfl, rfl⟩ := List.cons.inj lines_eq
      rw [List.mem_append, not_or] at line_feedless
      rw [terminated, List.flatMap_nil, List.nil_append,
        Position.behind_of_feedless line_feedless.2.1]
      refine ⟨.inl ⟨above, left, rest, below ++ beyond, by simp, rfl, rfl⟩,
        above, left ++ inside, rest, below, beyond, by simp, ?_, rfl, rfl⟩
      rw [List.length_append]
  | cons first passed =>
      rw [List.cons_append] at lines_eq
      obtain ⟨rfl, rfl⟩ := List.cons.inj lines_eq
      rw [List.forall_mem_append, List.forall_mem_cons, List.mem_append, not_or] at below_feedless
      have passed_feedless : ∀ line ∈ right :: passed, '\n' ∉ line :=
        List.forall_mem_cons.mpr ⟨line_feedless.2, below_feedless.1⟩
      have stop_eq : Position.behind ⟨above.length, left.length⟩
          (terminated (right :: passed) ++ inside) =
            ⟨above.length + passed.length + 1, inside.length⟩ := by
        rw [Position.behind_append,
          Position.behind_terminated passed_feedless (List.cons_ne_nil right passed),
          Position.behind_of_feedless below_feedless.2.1.1, Nat.zero_add, List.length_cons,
          Nat.add_assoc]
      rw [stop_eq]
      refine ⟨.inr
          ⟨above, left, right, passed, inside, rest, lower ++ beyond, by simp, rfl, ?_, rfl⟩,
        above ++ (left ++ right) :: passed, inside, rest, lower, beyond, by simp, ?_, ?_, rfl⟩
      · rw [← List.cons_append, joinLines_concat]
      · rw [List.length_append, List.length_cons, Nat.add_assoc]
      · simp only [List.length_append, List.length_cons]
        omega

theorem Ahead.behind {before after : List Char} (feedless : ∀ code ∈ codes, '\n' ∉ code)
    (ahead : Ahead codes limit position (before ++ after)) :
    Ahead codes limit (position.behind before) after :=
  (ahead.spans feedless).2

theorem Ahead.next {c : Char} (other : c ≠ '\n') (feedless : ∀ code ∈ codes, '\n' ∉ code)
    (ahead : Ahead codes limit position (c :: text)) :
    Ahead codes limit ⟨position.line, position.column + 1⟩ text := by
  rw [← List.singleton_append] at ahead
  have onward := ahead.behind feedless
  rwa [Position.behind_of_feedless (by simpa using Ne.symm other)] at onward

end Ahead

end Indexed
end SorobanLint
