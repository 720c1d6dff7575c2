import SorobanLint.Proofs.Attributes
import SorobanLint.Proofs.Indexed.Sweep

/-!
# Attributes by index

The end of an attribute is the index of the bracket that closes its first one.  Peeling a text that
does not begin with a blank character by index is peeling it (`peel_eq`).
-/

namespace SorobanLint

open Text

namespace Indexed

/-- The number of characters of the marker `#[` or `#![` that a text begins with. -/
def marker? : List Char → Option Nat
  | '#' :: '[' :: _ => some 2
  | '#' :: '!' :: '[' :: _ => some 3
  | _ => none

/-- The number of open square brackets behind a character. -/
def squareStep : Int → Option Char → Char → Option Int :=
  nestStep '[' ']'

/-- Take the attributes off the beginning of a line of code. -/
def peel (code : List Char) : Access Peeled :=
  match _marked : marker? code with
  | none => pure ⟨[], code, true⟩
  | some stop => do
    let names := (Attribute.name? (code.drop stop)).toList
    match ← sweepColumns squareStep code (code.length - (stop - 1)) (stop - 1) 0 with
    | .inl _ => return ⟨names, [], false⟩
    | .inr (closing, _) =>
      let tail ← peel (trimStart (code.drop (closing + 1)))
      return { tail with names := names ++ tail.names }
termination_by code.length
decreasing_by
  have nonempty : 0 < code.length := by
    cases code with
    | nil => exact absurd _marked (by simp [marker?])
    | cons c code => exact Nat.succ_pos _
  have shorter := List.IsSuffix.length_le
    (List.dropWhile_suffix isBlank (l := code.drop (closing + 1)))
  rw [List.length_drop] at shorter
  change (trimStart _).length < _
  rw [trimStart]
  omega

variable {code : List Char}

theorem inside?_of_marker? (marked : marker? code = none) : Attribute.inside? code = none := by
  unfold marker? at marked
  unfold Attribute.inside?
  split at marked <;> first | contradiction | simp_all

theorem peel_of_marker? {stop : Nat} (marked : marker? code = some stop) :
    Attribute.peel code =
      { Attribute.peelFrom (some 1) (code.drop stop) with
        names := (Attribute.name? (code.drop stop)).toList ++
          (Attribute.peelFrom (some 1) (code.drop stop)).names } := by
  unfold marker? at marked
  split at marked
  next text =>
    obtain rfl := Option.some.inj marked
    rfl
  next text =>
    obtain rfl := Option.some.inj marked
    rfl
  next => contradiction

theorem drop_of_marker? {stop : Nat} (marked : marker? code = some stop) :
    code.drop (stop - 1) = '[' :: code.drop stop ∧ 0 < stop := by
  unfold marker? at marked
  split at marked
  next text =>
    obtain rfl := Option.some.inj marked
    exact ⟨rfl, by decide⟩
  next text =>
    obtain rfl := Option.some.inj marked
    exact ⟨rfl, by decide⟩
  next => contradiction

/-- The sweep from the first bracket of an attribute on is one behind that bracket. -/
theorem sweepColumns_of_marker? {stop : Nat} (marked : marker? code = some stop) :
    sweepColumns squareStep code (code.length - (stop - 1)) (stop - 1) 0 =
      pure ((sweep squareStep 1 (some '[') (code.drop stop)).map id
        fun (before, c, _) => (stop + before.length, c)) := by
  obtain ⟨drop_eq, positive⟩ := drop_of_marker? marked
  have opened (previous : Option Char) (text : List Char) :
      sweep squareStep 0 previous ('[' :: text) = (sweep squareStep 1 (some '[') text).map id
        fun (before, c, after) => ('[' :: before, c, after) := rfl
  rw [sweepColumns_drop, drop_eq, opened]
  cases sweep squareStep 1 (some '[') (code.drop stop) with
  | inl depth => rfl
  | inr hit =>
      have column_eq : stop - 1 + ('[' :: hit.1).length = stop + hit.1.length := by
        rw [List.length_cons]
        omega
      simp only [Sum.map_inr, column_eq]

/-- A sweep over square brackets ends where peeling comes out of an attribute. -/
theorem peelFrom_eq_sweep (depth : Nat) (previous : Option Char) (text : List Char) :
    Attribute.peelFrom (some (depth + 1)) text =
      match sweep squareStep (depth + 1) previous text with
      | .inl _ => ⟨[], [], false⟩
      | .inr (_, _, after) => Attribute.peelFrom none after := by
  induction text generalizing depth previous with
  | nil => rfl
  | cons c text ih =>
      have onward (next : Nat)
          (step_eq : squareStep (depth + 1) previous c = some (next + 1 : Int)) :
          Attribute.peelFrom (some (next + 1)) text =
            match sweep squareStep (depth + 1) previous (c :: text) with
            | .inl _ => ⟨[], [], false⟩
            | .inr (_, _, after) => Attribute.peelFrom none after := by
        rw [ih next (some c), sweep, step_eq]
        dsimp only
        cases sweep squareStep (next + 1) (some c) text <;> rfl
      rw [Attribute.peelFrom]
      split_ifs with opener closer last
      · exact onward (depth + 1) (by simp [squareStep, nestStep, opener])
      · obtain rfl : depth = 0 := by omega
        subst closer
        rfl
      · obtain ⟨inner, rfl⟩ := Nat.exists_eq_add_one_of_ne_zero (n := depth) (by omega)
        have inside : (inner : Int) + 1 ≠ 0 := by omega
        exact onward inner (by simp [squareStep, nestStep, closer, inside])
      · exact onward depth (by simp [squareStep, nestStep, opener, closer])

theorem solid_trimStart (text : List Char) : ∀ c ∈ (trimStart text).head?, isBlank c = false := by
  intro c head
  have first := List.head?_dropWhile_not isBlank text
  rw [← trimStart, Option.mem_def.mp head] at first
  exact first

theorem solid_trim (text : List Char) : ∀ c ∈ (trim text).head?, isBlank c = false := by
  intro c head
  obtain ⟨trail, -, start_eq⟩ := exists_append_trimEnd (trimStart text)
  refine solid_trimStart text c ?_
  rw [start_eq, List.head?_append, ← trim, Option.mem_def.mp head]
  rfl

theorem peelFrom_trimStart (text : List Char) :
    Attribute.peelFrom none (trimStart text) = Attribute.peelFrom none text := by
  conv => right; rw [← List.takeWhile_append_dropWhile (p := isBlank) (l := text)]
  exact (Attribute.peelFrom_append_blank (fun _ => List.mem_takeWhile_imp) none _).symm

/-- The attributes are taken off by index as they are from one character to the next. -/
theorem peel_eq (solid : ∀ c ∈ code.head?, isBlank c = false) :
    peel code = pure (Attribute.peel code) := by
  induction size : code.length using Nat.strong_induction_on generalizing code with
  | _ n ih =>
      subst size
      rw [peel, Attribute.peel]
      split
      next unmarked =>
        have outside := inside?_of_marker? unmarked
        cases code with
        | nil => rfl
        | cons c code =>
            have not_blank : ¬isBlank c = true := by simp [solid c rfl]
            rw [Attribute.peelFrom, if_neg not_blank, outside]
      next stop marked =>
        rw [sweepColumns_of_marker? marked, ← Attribute.peel, peel_of_marker? marked]
        have peeled := peelFrom_eq_sweep 0 (some '[') (code.drop stop)
        simp only [Nat.cast_zero, zero_add] at peeled
        rw [peeled]
        dsimp only
        cases hit : sweep squareStep 1 (some '[') (code.drop stop) with
        | inl depth => simp
        | inr parts =>
            obtain ⟨before, c, after⟩ := parts
            have cut := append_of_sweep hit
            have drop_eq : code.drop (stop + before.length + 1) = after := by
              rw [Nat.add_assoc, ← List.drop_drop, cut, ← List.drop_drop, List.drop_left,
                List.drop_succ_cons, List.drop_zero]
            have shorter : (trimStart after).length < code.length := by
              have behind := List.IsSuffix.length_le (List.dropWhile_suffix isBlank (l := after))
              have lengths := congrArg List.length cut
              rw [List.length_drop, List.length_append, List.length_cons] at lengths
              rw [trimStart]
              omega
            have rest := ih _ shorter (solid_trimStart after) rfl
            simp only [Sum.map_inr, pure_bind, drop_eq, rest, Attribute.peel, peelFrom_trimStart]

end Indexed
end SorobanLint
