import SorobanLint.Proofs.Nesting
import SorobanLint.Proofs.Origin

/-!
# Passing over the lines of a block

A block goes through the lines between its braces, skips those of the functions it reads and counts
the braces of the others (`ImplBlock.exists_passes`).  The depth with which it comes to a line is
never too large (`ImplBlock.Passes.depth_le`), and it is right if the braces on the lines of each
function above pair up (`ImplBlock.Passes.depth_eq`).
-/

namespace SorobanLint

open Text

namespace ImplBlock

open SorobanLint.Bracket

/-- A block passes over lines, the first of which has the given index, and reads functions there.
The numbers in front of the lines are those of the lines to skip and of the open braces before the
first line, the numbers behind them those after the last. -/
inductive Passes : Nat → Nat → Nat → List Line → Nat → Nat → List Function → Prop where
  /-- There are no lines. -/
  | here (index skip depth : Nat) : Passes index skip depth [] skip depth []
  /-- The first line belongs to a function already read. -/
  | held {index skip depth skip' depth' : Nat} {line : Line} {above : List Line}
      {functions : List Function}
      (onward : Passes (index + 1) skip depth above skip' depth' functions) :
      Passes index (skip + 1) depth (line :: above) skip' depth' functions
  /-- A function begins on the first line. -/
  | found {index last skip' depth' : Nat} {line : Line} {above : List Line} {head : Function}
      {functions : List Function} (extent_eq : head.extent = ⟨index + 1, index + 1 + last⟩)
      (onward : Passes (index + 1) last 0 above skip' depth' functions) :
      Passes index 0 0 (line :: above) skip' depth' (head :: functions)
  /-- The first line belongs to no function. -/
  | counted {index depth skip' depth' : Nat} {line : Line} {above : List Line}
      {functions : List Function}
      (onward : Passes (index + 1) 0 (depthAfter depth line.code) above skip' depth' functions) :
      Passes index 0 depth (line :: above) skip' depth' functions

section Reading

variable {texts : List (List Char)} {target : List Char} {index skip depth : Nat}
  {above below : List Line} {line : Line} {functions : List Function}

/-- A block that reads its lines passes over those above a line and goes on there. -/
theorem exists_passes (excerpt : Excerpt texts index (above ++ line :: below))
    (read : readFunctions target skip depth (above ++ line :: below) = .ok functions) :
    ∃ skip' depth' front back, Passes index skip depth above skip' depth' front ∧
      readFunctions target skip' depth' (line :: below) = .ok back ∧ functions = front ++ back := by
  induction above generalizing index skip depth functions with
  | nil => exact ⟨skip, depth, [], functions, .here index skip depth, read, rfl⟩
  | cons first above ih =>
      have nonempty : above ++ line :: below ≠ [] := by simp
      obtain ⟨next, rest, later_eq⟩ := List.exists_cons_of_ne_nil nonempty
      rw [List.cons_append] at excerpt read
      rw [later_eq] at read
      cases skip with
      | succ skip =>
          rw [readFunctions, ← later_eq] at read
          obtain ⟨skip', depth', front, back, passes, onward, rfl⟩ := ih excerpt.tail read
          exact ⟨skip', depth', front, back, .held passes, onward, rfl⟩
      | zero =>
          rw [readFunctions, ← later_eq] at read
          split at read
          next isHeader =>
            rw [Bool.and_eq_true, decide_eq_true_eq] at isHeader
            obtain ⟨rfl, -⟩ := isHeader
            obtain ⟨⟨head, last⟩, head_read, read⟩ := bind_eq_ok_iff.mp read
            obtain ⟨others, others_read, result⟩ := bind_eq_ok_iff.mp read
            obtain rfl := Except.ok.inj result
            obtain ⟨-, extent_eq, -⟩ := Function.occupies_of_read excerpt head_read
            obtain ⟨skip', depth', front, back, passes, onward, rfl⟩ := ih excerpt.tail others_read
            exact ⟨skip', depth', head :: front, back, .found extent_eq passes, onward, rfl⟩
          next =>
            obtain ⟨skip', depth', front, back, passes, onward, rfl⟩ := ih excerpt.tail read
            exact ⟨skip', depth', front, back, .counted passes, onward, rfl⟩

/-- A function is read on a line that begins with a header, if none is open and no brace is. -/
theorem begins_iff (excerpt : Excerpt texts index (line :: below)) (inside : below ≠ [])
    (read : readFunctions target skip depth (line :: below) = .ok functions) :
    (∃ function ∈ functions, function.line = line.number) ↔
      skip = 0 ∧ depth = 0 ∧ Function.header.isHeadOf line.item = true := by
  have lower {skip depth : Nat} {functions : List Function}
      (read : readFunctions target skip depth below = .ok functions) :
      ¬ ∃ function ∈ functions, function.line = line.number := by
    rintro ⟨function, mem, same⟩
    have bounds := ((functions_laidOut excerpt.tail read).1 function mem).2.1
    have number := excerpt.number_eq
    change _ < function.line at bounds
    push_cast at bounds
    omega
  obtain ⟨next, rest, rfl⟩ := List.exists_cons_of_ne_nil inside
  cases skip with
  | succ skip =>
      rw [readFunctions] at read
      simp [lower read]
  | zero =>
      rw [readFunctions] at read
      split at read
      next isHeader =>
        rw [Bool.and_eq_true, decide_eq_true_eq] at isHeader
        obtain ⟨⟨head, last⟩, head_read, read⟩ := bind_eq_ok_iff.mp read
        obtain ⟨others, -, result⟩ := bind_eq_ok_iff.mp read
        obtain rfl := Except.ok.inj result
        obtain ⟨-, extent_eq, -⟩ := Function.occupies_of_read excerpt head_read
        have head_line : head.line = index + 1 := congrArg Extent.first extent_eq
        refine iff_of_true ⟨head, List.mem_cons_self, ?_⟩ ⟨rfl, isHeader⟩
        rw [head_line, excerpt.number_eq]
        push_cast
        rfl
      next notHeader =>
        rw [Bool.and_eq_true, decide_eq_true_eq] at notHeader
        exact iff_of_false (lower read) fun ⟨_, isHeader⟩ => notHeader isHeader

end Reading

namespace Passes

variable {codes : List (List Char)} {index skip depth skip' depth' outer stop : Nat}
  {above : List Line} {functions : List Function}

/-- The functions begin on the lines. -/
theorem line_le (passes : Passes index skip depth above skip' depth' functions)
    (stop_eq : index + above.length = stop) : ∀ function ∈ functions, function.line ≤ stop := by
  induction passes with
  | here => simp
  | held onward ih => exact ih ((Nat.succ_add_eq_add_succ _ _).trans stop_eq)
  | found extent_eq onward ih =>
      rw [List.forall_mem_cons]
      refine ⟨?_, ih ((Nat.succ_add_eq_add_succ _ _).trans stop_eq)⟩
      have line_eq := congrArg Extent.first extent_eq
      change Function.line _ = _ at line_eq
      rw [List.length_cons] at stop_eq
      rw [line_eq]
      dsimp only
      omega
  | counted onward ih => exact ih ((Nat.succ_add_eq_add_succ _ _).trans stop_eq)

/-- Behind the last lines of all functions no line is skipped. -/
theorem skip_eq_zero (passes : Passes index skip depth above skip' depth' functions)
    (stop_eq : index + above.length = stop) (skipped : skip ≤ above.length)
    (ended : ∀ function ∈ functions, function.extent.last ≤ stop) : skip' = 0 := by
  induction passes with
  | here => exact Nat.le_zero.mp skipped
  | held onward ih =>
      exact ih ((Nat.succ_add_eq_add_succ _ _).trans stop_eq) (Nat.le_of_succ_le_succ skipped) ended
  | found extent_eq onward ih =>
      rw [List.forall_mem_cons, extent_eq] at ended
      obtain ⟨head_ended, others_ended⟩ := ended
      rw [List.length_cons] at stop_eq
      dsimp only at head_ended
      exact ih (by omega) (by omega) others_ended
  | counted onward ih =>
      exact ih ((Nat.succ_add_eq_add_succ _ _).trans stop_eq) (Nat.zero_le _) ended

theorem depthAfter_mono (le : depth ≤ outer) (text : List Char) :
    depthAfter depth text ≤ depthAfter outer text := by
  rw [depthAfter, depthAfter]
  omega

/-- A block counts no brace that is not open. -/
theorem depth_le (passes : Passes index skip depth above skip' depth' functions)
    (le : depth ≤ outer) (fresh : skip ≠ 0 → depth = 0)
    (fit : BracesFit outer (above.map (·.code)).flatten) :
    depth' ≤ depthAfter outer (above.map (·.code)).flatten := by
  induction passes generalizing outer with
  | here => exact le
  | held onward ih =>
      have level := fresh (Nat.succ_ne_zero _)
      rw [List.map_cons, List.flatten_cons, bracesFit_append] at fit
      rw [List.map_cons, List.flatten_cons, depthAfter_append outer fit.1]
      exact ih (level ▸ Nat.zero_le _) (fun _ => level) fit.2
  | found extent_eq onward ih =>
      rw [List.map_cons, List.flatten_cons, bracesFit_append] at fit
      rw [List.map_cons, List.flatten_cons, depthAfter_append outer fit.1]
      exact ih (Nat.zero_le _) (fun _ => rfl) fit.2
  | counted onward ih =>
      rw [List.map_cons, List.flatten_cons, bracesFit_append] at fit
      rw [List.map_cons, List.flatten_cons, depthAfter_append outer fit.1]
      exact ih (depthAfter_mono le _) (fun skips => absurd rfl skips) fit.2

/-- A block counts all open braces if those on the lines of each function pair up. -/
theorem depth_eq (passes : Passes index skip depth above skip' depth' functions)
    (stop_eq : index + above.length = stop) (skipped : skip ≤ above.length)
    (ended : ∀ function ∈ functions, function.extent.last ≤ stop)
    (nested : ∀ function ∈ functions, Nested (function.extent.slice codes).flatten)
    (leading : above.map (·.code) <+: codes.drop index)
    (fit : BracesFit depth ((above.map (·.code)).drop skip).flatten) :
    depth' = depthAfter depth ((above.map (·.code)).drop skip).flatten := by
  have below {index : Nat} {line : Line} {above : List Line}
      (leading : (line :: above).map (·.code) <+: codes.drop index) :
      above.map (·.code) <+: codes.drop (index + 1) := by
    rw [← List.drop_drop]
    exact leading.drop 1
  induction passes with
  | here =>
      rw [List.map_nil, List.drop_nil]
      rfl
  | held onward ih =>
      rw [List.map_cons, List.drop_succ_cons] at fit ⊢
      exact ih ((Nat.succ_add_eq_add_succ _ _).trans stop_eq) (Nat.le_of_succ_le_succ skipped)
        ended nested (below leading) fit
  | @found index last _ _ line above head functions extent_eq onward ih =>
      rw [List.forall_mem_cons] at ended nested
      obtain ⟨head_ended, others_ended⟩ := ended
      obtain ⟨head_nested, others_nested⟩ := nested
      rw [List.length_cons] at stop_eq
      rw [extent_eq] at head_ended
      dsimp only at head_ended
      have last_le : last ≤ above.length := by omega
      rw [Extent.slice_eq_take extent_eq leading (by simpa using Nat.lt_succ_of_le last_le)]
        at head_nested
      rw [List.drop_zero] at fit ⊢
      obtain ⟨others_fit, level⟩ := head_nested.drop_flatten fit
      rw [level]
      exact ih (by omega) last_le others_ended others_nested (below leading) others_fit
  | counted onward ih =>
      rw [List.drop_zero, List.map_cons, List.flatten_cons, bracesFit_append] at fit
      rw [List.drop_zero, List.map_cons, List.flatten_cons, depthAfter_append _ fit.1]
      exact ih ((Nat.succ_add_eq_add_succ _ _).trans stop_eq) (Nat.zero_le _) ended nested
        (below leading) fit.2

end Passes

end ImplBlock
end SorobanLint
