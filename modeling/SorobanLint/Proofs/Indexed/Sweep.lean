import SorobanLint.Proofs.Indexed.Position
import SorobanLint.Proofs.Nesting

/-!
# Sweeps over indexed lines

A sweep goes through the columns of one line after the other and stops at the first character at
which it has nothing to go on with.  From a position in range it reaches a result, the one of a
sweep through the text ahead (`sweepLines_eq`), so no index is out of range.  The two sweeps of the
parser are searches for a character outside angle brackets and for a closing brace.
-/

namespace SorobanLint

open Text

namespace Indexed

/-! ## Sweeps -/

section Sweep

variable {σ : Type} (step : σ → Option Char → Char → Option σ)

/-- A sweep through a text: the state at its end, or the text in front of and behind the first
character at which the step has no next state. -/
def sweep : σ → Option Char → List Char → σ ⊕ List Char × Char × List Char
  | state, _, [] => .inl state
  | state, previous, c :: rest =>
    match step state previous c with
    | none => .inr ([], c, rest)
    | some next =>
      (sweep next (some c) rest).map id fun (before, found, after) => (c :: before, found, after)

/-- A sweep through so many columns of a line, from the given one on. -/
def sweepColumns (text : List Char) : Nat → Nat → σ → Access (σ ⊕ Nat × Char)
  | 0, _, state => pure (.inl state)
  | left + 1, column, state => do
    let c ← Access.get text column
    match step state (← Access.previous text column) c with
    | none => return .inr (column, c)
    | some next => sweepColumns text left (column + 1) next

/-- A sweep through so many lines, from the given position on. -/
def sweepLines (codes : List (List Char)) : Nat → Position → σ → Access (Option (Position × Char))
  | 0, _, _ => pure none
  | left + 1, position, state => do
    let text ← Access.get codes position.line
    match ← sweepColumns step text (text.length - position.column) position.column state with
    | .inr (column, c) => return some (⟨position.line, column⟩, c)
    | .inl next => sweepLines codes left ⟨position.line + 1, 0⟩ next

/-- A line feed is met without effect, and behind it the step is the one at the beginning of a
text. -/
structure LineWise : Prop where
  feed : ∀ state previous, step state previous '\n' = some state
  fresh : ∀ state c, step state (some '\n') c = step state none c

end Sweep

section Sweeps

variable {σ : Type} {step : σ → Option Char → Char → Option σ} {state : σ}

theorem sweep_append (state : σ) (previous : Option Char) (s t : List Char) :
    sweep step state previous (s ++ t) =
      match sweep step state previous s with
      | .inr (before, c, after) => .inr (before, c, after ++ t)
      | .inl next =>
        (sweep step next (s.getLast?.or previous) t).map id
          fun (before, c, after) => (s ++ before, c, after) := by
  induction s generalizing state previous with
  | nil => cases onward : sweep step state previous t <;> simp [sweep, onward]
  | cons c s ih =>
      have last_eq : (c :: s).getLast?.or previous = s.getLast?.or (some c) := by
        rw [List.getLast?_cons]
        cases s.getLast? <;> rfl
      rw [List.cons_append, sweep, sweep, last_eq]
      cases step state previous c with
      | none => rfl
      | some next =>
          dsimp only
          rw [ih]
          cases sweep step next (some c) s with
          | inl behind =>
              dsimp only [Sum.map_inl, id]
              cases sweep step behind (s.getLast?.or (some c)) t <;> rfl
          | inr hit => rfl

theorem append_of_sweep {previous : Option Char} {text before after : List Char} {c : Char}
    (hit : sweep step state previous text = .inr (before, c, after)) :
    text = before ++ c :: after := by
  induction text generalizing state previous before with
  | nil => contradiction
  | cons d text ih =>
      rw [sweep] at hit
      split at hit
      next => cases hit; rfl
      next onward _ =>
        cases hit_later : sweep step onward (some d) text with
        | inl behind => simp [hit_later] at hit
        | inr found =>
            rw [hit_later] at hit
            obtain ⟨rfl, rfl, rfl⟩ := hit
            rw [ih hit_later, List.cons_append]

theorem feedless_of_sweep {previous : Option Char} {text before after : List Char} {c : Char}
    (feedless : '\n' ∉ text) (hit : sweep step state previous text = .inr (before, c, after)) :
    '\n' ∉ before := by
  rw [append_of_sweep hit, List.mem_append, not_or] at feedless
  exact feedless.1

/-- A sweep that has begun as at the beginning of a text goes on so. -/
theorem sweep_of_calm (calm : ∀ previous c, step state previous c = step state none c)
    (previous : Option Char) (text : List Char) :
    sweep step state previous text = sweep step state none text := by
  cases text with
  | nil => rfl
  | cons c text => rw [sweep, sweep, calm]

theorem sweep_of_fresh (linewise : LineWise step) (state : σ) (text : List Char) :
    sweep step state (some '\n') text = sweep step state none text := by
  cases text with
  | nil => rfl
  | cons c text => rw [sweep, sweep, linewise.fresh]

theorem sweepColumns_eq (state : σ) (left right : List Char) :
    sweepColumns step (left ++ right) right.length left.length state =
      pure ((sweep step state left.getLast? right).map id
        fun (before, c, _) => (left.length + before.length, c)) := by
  induction right generalizing state left with
  | nil => rfl
  | cons c right ih =>
      have onward (next : σ) := ih next (left ++ [c])
      rw [List.append_assoc, List.singleton_append, List.length_append, List.length_singleton,
        List.getLast?_concat] at onward
      rw [List.length_cons, sweepColumns, Access.get_append, pure_bind, Access.previous_append,
        pure_bind, sweep]
      cases step state left.getLast? c with
      | none => rfl
      | some next =>
          dsimp only
          rw [onward]
          cases sweep step next (some c) right with
          | inl behind => rfl
          | inr hit =>
              simp only [Sum.map_inr, List.length_cons]
              congr 3
              omega

theorem sweepColumns_drop (state : σ) (text : List Char) (column : Nat) :
    sweepColumns step text (text.length - column) column state =
      pure ((sweep step state (text.take column).getLast? (text.drop column)).map id
        fun (before, c, _) => (column + before.length, c)) := by
  rcases Nat.le_total column text.length with within | beyond
  · have swept : sweepColumns step _ _ _ state = _ :=
      sweepColumns_eq state (text.take column) (text.drop column)
    rw [List.take_append_drop, List.length_drop, List.length_take, Nat.min_eq_left within] at swept
    exact swept
  · rw [Nat.sub_eq_zero_of_le beyond, List.drop_eq_nil_of_le beyond]
    rfl

end Sweeps

/-! ## Sweeps from a position -/

section Ahead

variable {codes : List (List Char)} {limit : Nat} {position : Position} {text : List Char}

theorem behind_of_sweep {σ : Type} {step : σ → Option Char → Char → Option σ} {state : σ}
    {previous : Option Char} {left right before after : List Char} {c : Char}
    (feedless : '\n' ∉ left ++ right)
    (hit : sweep step state previous right = .inr (before, c, after)) (line : Nat) :
    Position.behind ⟨line, left.length⟩ before = ⟨line, left.length + before.length⟩ := by
  rw [List.mem_append, not_or] at feedless
  exact Position.behind_of_feedless (feedless_of_sweep feedless.2 hit) ⟨line, left.length⟩

/-- From a position in range, a sweep over the lines reaches what a sweep through the text ahead
reaches, and no index is out of range on the way. -/
theorem sweepLines_eq {σ : Type} {step : σ → Option Char → Char → Option σ} {state : σ}
    (linewise : LineWise step) (calm : ∀ previous c, step state previous c = step state none c)
    (feedless : ∀ code ∈ codes, '\n' ∉ code) (ahead : Ahead codes limit position text) :
    sweepLines step codes (limit + 1 - position.line) position state =
      pure ((sweep step state none text).getRight?.map
        fun (before, c, _) => (position.behind before, c)) := by
  obtain ⟨above, left, right, below, beyond, rfl, rfl, rfl, rfl⟩ := ahead
  have count_eq : above.length + below.length + 1 - above.length = below.length + 1 := by omega
  dsimp only
  rw [count_eq, ← sweep_of_calm calm left.getLast?]
  clear count_eq calm
  induction below generalizing above left right state with
  | nil =>
      rw [List.forall_mem_append, List.forall_mem_cons] at feedless
      rw [List.length_nil, sweepLines, Access.get_append, pure_bind, List.length_append,
        Nat.add_sub_cancel_left, sweepColumns_eq, pure_bind, joinLines_singleton]
      cases hit : sweep step state left.getLast? right with
      | inl next => rfl
      | inr found =>
          have position_eq := behind_of_sweep feedless.2.1 hit above.length
          simp [position_eq]
  | cons line below ih =>
      rw [List.length_cons, sweepLines, Access.get_append, pure_bind, List.length_append,
        Nat.add_sub_cancel_left, sweepColumns_eq, pure_bind, joinLines_cons_cons, sweep_append]
      cases hit : sweep step state left.getLast? right with
      | inl next =>
          -- The line feed changes nothing, and behind it the sweep begins anew.
          have codes_eq : above ++ (left ++ right) :: (line :: below ++ beyond) =
              (above ++ [left ++ right]) ++ ([] ++ line) :: (below ++ beyond) := by simp
          have right_feedless : '\n' ∉ right := by
            rw [List.forall_mem_append, List.forall_mem_cons, List.mem_append, not_or] at feedless
            exact feedless.2.1.2
          rw [codes_eq] at feedless ⊢
          have onward : sweepLines step _ _ _ next = _ :=
            ih (above ++ [left ++ right]) [] line feedless
          rw [List.length_append, List.length_singleton, List.length_nil,
            List.getLast?_nil] at onward
          dsimp only [Sum.map_inl, id]
          rw [onward, sweep, linewise.feed]
          dsimp only
          rw [sweep_of_fresh linewise]
          cases sweep step next none (joinLines (line :: below)) with
          | inl behind => rfl
          | inr found =>
              have position_eq :=
                Position.behind_of_feedless right_feedless ⟨above.length, left.length⟩
              simp [Position.behind_append, position_eq, Position.behind_newline]
      | inr found =>
          rw [List.forall_mem_append, List.forall_mem_cons] at feedless
          have position_eq := behind_of_sweep feedless.2.1 hit above.length
          simp [position_eq]

end Ahead

/-! ## The two sweeps of the parser -/

/-- The number of open angle brackets behind a character; none at a character in `target` outside
all of them. -/
def angleStep (target : Char → Bool) (depth : Nat) (previous : Option Char) (c : Char) :
    Option Nat :=
  if c = '<' then some (depth + 1)
  else if c = '>' && depth ≠ 0 && Bracket.closesAngle previous then some (depth - 1)
  else if target c && depth = 0 then none
  else some depth

/-- The number of open brackets of one kind behind a character; none at the bracket that closes the
last. -/
def nestStep (opener closer : Char) (depth : Int) (_ : Option Char) (c : Char) : Option Int :=
  if c = opener then some (depth + 1)
  else if c = closer then if depth - 1 = 0 then none else some (depth - 1)
  else some depth

/-- The number of open braces behind a character. -/
def braceStep : Int → Option Char → Char → Option Int :=
  nestStep '{' '}'

/-- The first of the characters outside angle brackets, from the position on. -/
def findFirst (codes : List (List Char)) (position : Position) (chars : String) (limit : Nat) :
    Access (Position × Char) := do
  match ← sweepLines (angleStep chars.toList.contains) codes (limit + 1 - position.line) position 0
    with
  | some found => return found
  | none => throw (.openHeader chars (position.line + 1))

/-- The position of the brace that closes the one at the given position. -/
def matchBrace (codes : List (List Char)) (position : Position) (limit : Nat) :
    Access Position := do
  match ← sweepLines braceStep codes (limit + 1 - position.line) position 0 with
  | some (closing, _) => return closing
  | none => throw (.openBlock (position.line + 1))

section Searches

variable {codes : List (List Char)} {limit : Nat} {position : Position} {text : List Char}

theorem linewise_angleStep {target : Char → Bool} (plain : target '\n' = false) :
    LineWise (angleStep target) where
  feed := fun _ _ => by simp [angleStep, plain]
  fresh := fun _ _ => rfl

theorem linewise_braceStep : LineWise braceStep where
  feed := fun _ _ => rfl
  fresh := fun _ _ => rfl

theorem sweep_angleStep (target : Char → Bool) (depth : Nat) (previous : Option Char)
    (text : List Char) :
    (sweep (angleStep target) depth previous text).getRight? =
      Bracket.firstOutsideAngles? target depth previous text := by
  induction text generalizing depth previous with
  | nil => rfl
  | cons c text ih =>
      rw [sweep, Bracket.firstOutsideAngles?, angleStep]
      split_ifs
      · exact (Sum.getRight?_map ..).trans (congrArg _ (ih ..))
      · exact (Sum.getRight?_map ..).trans (congrArg _ (ih ..))
      · rfl
      · exact (Sum.getRight?_map ..).trans (congrArg _ (ih ..))

theorem sweep_braceStep (depth : Nat) (previous : Option Char) (text : List Char) :
    (sweep braceStep (depth + 1) previous text).getRight? =
      (Bracket.closeBrace? depth text).map fun (inner, after) => (inner, '}', after) := by
  induction text generalizing depth previous with
  | nil => rfl
  | cons c text ih =>
      by_cases closer : c = '}'
      · subst closer
        cases depth with
        | zero => rfl
        | succ outer =>
            have step_eq :
                braceStep ((outer + 1 : Nat) + 1) previous '}' = some ((outer : Int) + 1) := by
              have inside : (outer : Int) + 1 ≠ 0 := by omega
              simp [braceStep, nestStep, inside]
            rw [sweep, step_eq, Bracket.closeBrace?_cons_close]
            simp [Sum.getRight?_map, ih, Function.comp_def]
      · have step_eq : braceStep (depth + 1) previous c =
            some (((ImplBlock.depthAfter depth [c] : Nat) : Int) + 1) := by
          rw [braceStep, nestStep, if_neg closer, Bracket.depthAfter_singleton depth closer]
          split_ifs <;> rfl
        rw [sweep, step_eq, Bracket.closeBrace?_cons_of_ne depth closer]
        simp [Sum.getRight?_map, ih, Function.comp_def]

/-- A sweep that begins at an opening brace closes it. -/
theorem sweep_braceStep_opener (text : List Char) :
    (sweep braceStep 0 none ('{' :: text)).getRight? =
      (Bracket.closeBrace? 0 text).map fun (inner, after) => ('{' :: inner, '}', after) := by
  have opened : sweep braceStep 0 none ('{' :: text) = (sweep braceStep 1 (some '{') text).map id
      fun (before, c, after) => ('{' :: before, c, after) := rfl
  have closed := sweep_braceStep 0 (some '{') text
  rw [Nat.cast_zero, zero_add] at closed
  rw [opened, Sum.getRight?_map, closed]
  cases Bracket.closeBrace? 0 text <;> rfl

theorem getLeft?_sweep_braceStep (depth : Int) (previous : Option Char) (text : List Char) :
    (sweep braceStep depth previous text).getLeft? = Bracket.depthAfter? depth text := by
  induction text generalizing depth previous with
  | nil => rfl
  | cons c text ih =>
      have last_iff : depth - 1 = 0 ↔ depth = 1 := by omega
      have step_eq : braceStep depth previous c =
          if c = '{' then some (depth + 1)
          else if c = '}' then if depth - 1 = 0 then none else some (depth - 1)
          else some depth := rfl
      rw [sweep, step_eq, Bracket.depthAfter?]
      simp only [last_iff]
      split_ifs
      · exact (Sum.getLeft?_map ..).trans (by simp [ih])
      · rfl
      · exact (Sum.getLeft?_map ..).trans (by simp [ih])
      · exact (Sum.getLeft?_map ..).trans (by simp [ih])

/-- The lines alone tell on which of them a brace is closed. -/
theorem line_sweepLines {above lines beyond : List (List Char)}
    (codes_eq : codes = above ++ (lines ++ beyond)) (column : Nat) (depth : Int) :
    Option.map (·.1.line) <$> sweepLines braceStep codes lines.length ⟨above.length, column⟩ depth =
      pure ((Bracket.closingLine? depth (lines.modifyHead (·.drop column))).map
        (above.length + ·)) := by
  induction lines generalizing above column depth with
  | nil => rfl
  | cons line lines ih =>
      have get_eq : Access.get codes above.length = pure line := by
        rw [codes_eq]
        exact Access.get_append ..
      have here := getLeft?_sweep_braceStep depth (line.take column).getLast? (line.drop column)
      rw [List.length_cons, sweepLines, get_eq, pure_bind, sweepColumns_drop, pure_bind,
        List.modifyHead_cons, Bracket.closingLine?, ← here]
      cases hit : sweep braceStep depth (line.take column).getLast? (line.drop column) with
      | inl next =>
          have codes_below : codes = (above ++ [line]) ++ (lines ++ beyond) := by simp [codes_eq]
          have uncut : lines.modifyHead (·.drop 0) = lines := by cases lines <;> rfl
          have onward := ih codes_below 0 next
          rw [List.length_append, List.length_singleton, uncut] at onward
          dsimp only [Sum.map_inl, id, Sum.getLeft?_inl]
          rw [onward, Option.map_map]
          congr 2
          funext last
          exact Nat.add_right_comm above.length 1 last
      | inr found => rfl

theorem line_matchBrace (within : limit < codes.length) (position : Position) :
    Position.line <$> matchBrace codes position limit =
      match Bracket.closingLine? 0 (((codes.drop position.line).take
        (limit + 1 - position.line)).modifyHead (·.drop position.column)) with
      | none => throw (.openBlock (position.line + 1))
      | some last => pure (position.line + last) := by
  obtain ⟨index, column⟩ := position
  have swept : Option.map (·.1.line) <$>
      sweepLines braceStep codes (limit + 1 - index) ⟨index, column⟩ 0 =
        pure ((Bracket.closingLine? 0 (((codes.drop index).take (limit + 1 - index)).modifyHead
          (·.drop column))).map (index + ·)) := by
    rcases Nat.lt_or_ge limit index with beyond | inside
    · rw [Nat.sub_eq_zero_of_le beyond]
      rfl
    · have cut : codes = codes.take index ++ ((codes.drop index).take (limit + 1 - index) ++
          (codes.drop index).drop (limit + 1 - index)) := by
        rw [List.take_append_drop, List.take_append_drop]
      have index_eq : (codes.take index).length = index := List.length_take_of_le (by omega)
      have count_eq : ((codes.drop index).take (limit + 1 - index)).length = limit + 1 - index :=
        List.length_take_of_le (by rw [List.length_drop]; omega)
      have swept := line_sweepLines cut column 0
      rw [index_eq, count_eq] at swept
      exact swept
  let finish (line : Option Nat) : Access Nat := line.elim (throw (.openBlock (index + 1))) pure
  calc Position.line <$> matchBrace codes ⟨index, column⟩ limit
      = sweepLines braceStep codes (limit + 1 - index) ⟨index, column⟩ 0 >>=
          fun hit => finish (hit.map (·.1.line)) := by
        rw [matchBrace, map_bind]
        congr 1
        funext hit
        cases hit <;> rfl
    _ = _ := by
        rw [← bind_map_left, swept, pure_bind]
        dsimp only
        cases Bracket.closingLine? 0 _ <;> rfl

theorem findFirst_eq {chars : String} (plain : '\n' ∉ chars.toList)
    (feedless : ∀ code ∈ codes, '\n' ∉ code) (ahead : Ahead codes limit position text) :
    findFirst codes position chars limit =
      match Bracket.firstOutsideAngles? chars.toList.contains 0 none text with
      | none => throw (.openHeader chars (position.line + 1))
      | some (before, c, _) => pure (position.behind before, c) := by
  have calm (previous : Option Char) (c : Char) : angleStep chars.toList.contains 0 previous c =
      angleStep chars.toList.contains 0 none c := by simp [angleStep]
  have linewise : LineWise (angleStep chars.toList.contains) :=
    linewise_angleStep (by simpa using plain)
  rw [findFirst, sweepLines_eq linewise calm feedless ahead, pure_bind, sweep_angleStep]
  cases Bracket.firstOutsideAngles? chars.toList.contains 0 none text <;> rfl

theorem matchBrace_eq (feedless : ∀ code ∈ codes, '\n' ∉ code)
    (ahead : Ahead codes limit position ('{' :: text)) :
    matchBrace codes position limit =
      match Bracket.closeBrace? 0 text with
      | none => throw (.openBlock (position.line + 1))
      | some (inner, _) => pure (position.behind ('{' :: inner)) := by
  rw [matchBrace, sweepLines_eq linewise_braceStep (fun _ _ => rfl) feedless ahead, pure_bind,
    sweep_braceStep_opener]
  cases Bracket.closeBrace? 0 text <;> rfl

end Searches

end Indexed
end SorobanLint
