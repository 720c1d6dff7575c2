import SorobanLint.Proofs.Nesting
import SorobanLint.Proofs.Scan

/-!
# Braces left open

A scan counts the braces of the lines outside the declarations that it records, but for those in
attributes.  An accepted source leaves no brace open if the braces on the lines of each declaration
pair up and attributes hold none (`Contract.openBraces_eq_zero`).  Behind the end of a declaration on
its last line an open brace goes unnoticed (`Contract.openBraces_behind_struct`).
-/

namespace SorobanLint

open Text ImplBlock

namespace Bracket

variable {depth : Nat} {text : List Char}

/-- The number of open braces behind a text, counted character by character and never below
zero. -/
def openBraces (depth : Nat) (text : List Char) : Nat :=
  text.foldl (fun depth c =>
    if c = '{' then depth + 1 else if c = '}' then depth - 1 else depth) depth

theorem openBraces_eq_depthAfter (fit : BracesFit depth text) :
    openBraces depth text = depthAfter depth text := by
  induction text generalizing depth with
  | nil => rfl
  | cons c text ih =>
      obtain ⟨positive, onward⟩ := bracesFit_cons.mp fit
      have behind := depthAfter_append depth (bracesFit_singleton.mpr positive) text
      rw [List.singleton_append] at behind
      have step_eq : (if c = '{' then depth + 1 else if c = '}' then depth - 1 else depth) =
          depthAfter depth [c] := by
        by_cases closes : c = '}'
        · simp [closes, depthAfter]
        · rw [depthAfter_singleton depth closes, if_neg closes]
      rw [behind, ← ih onward, openBraces, List.foldl_cons, step_eq, openBraces]

end Bracket

open SorobanLint.Bracket

/-! ## Attributes over several lines -/

namespace Attribute

/-- The lines of code as a scan puts them behind each other while an attribute is open. -/
def gather (codes : List (List Char)) : List Char :=
  [' '].intercalate (codes.map trim)

/-- The attributes at the beginning of the lines hold no brace. -/
def Braceless (codes : List (List Char)) : Prop :=
  bracesOf (peel (gather codes)).rest = bracesOf (gather codes)

instance (codes : List (List Char)) : Decidable (Braceless codes) :=
  inferInstanceAs (Decidable (_ = _))

theorem gather_singleton (code : List Char) : gather [code] = trim code := by
  simp [gather]

theorem gather_cons_cons (code next : List Char) (codes : List (List Char)) :
    gather (code :: next :: codes) = trim code ++ ' ' :: gather (next :: codes) := by
  simp [gather, List.intercalate_cons_cons]

theorem gather_concat {codes : List (List Char)} (nonempty : codes ≠ []) (last : List Char) :
    gather (codes ++ [last]) = gather codes ++ ' ' :: trim last := by
  induction codes with
  | nil => contradiction
  | cons code codes ih =>
      cases codes with
      | nil =>
          rw [List.singleton_append, gather_cons_cons, gather_singleton, gather_singleton]
      | cons next codes =>
          rw [List.cons_append, List.cons_append, gather_cons_cons, gather_cons_cons,
            ← List.cons_append, ih (List.cons_ne_nil next codes), List.append_assoc,
            List.cons_append]

theorem bracesOf_gather (codes : List (List Char)) :
    bracesOf (gather codes) = bracesOf codes.flatten := by
  induction codes with
  | nil => rfl
  | cons code codes ih =>
      cases codes with
      | nil => rw [gather_singleton, bracesOf_trim, List.flatten_singleton]
      | cons next codes =>
          rw [gather_cons_cons, List.flatten_cons, bracesOf_append, bracesOf_append, bracesOf_trim,
            bracesOf_cons_of_ne (by decide) (by decide), ih]

/-- Nothing stands behind an open attribute. -/
theorem rest_peelFrom {depth : Option Nat} {code : List Char}
    (unfinished : (peelFrom depth code).closed = false) : (peelFrom depth code).rest = [] := by
  fun_induction peelFrom depth code with
  | case1 => contradiction
  | case2 => rfl
  | case3 c rest blank ih => exact ih unfinished
  | case4 c rest solid outside => contradiction
  | case5 c rest solid text inside tail ih => exact ih unfinished
  | case6 depth rest ih => exact ih unfinished
  | case7 depth rest other ih => exact ih unfinished
  | case8 depth c rest not_opener not_closer ih => exact ih unfinished

end Attribute

/-! ## The steps of a scan -/

/-- The pending lines are those of an attribute that is still open, and no brace stands on them. -/
structure ScanState.Holds (state : ScanState) (pending : List (List Char)) : Prop where
  opened_eq : state.opened = if pending = [] then none else some (Attribute.gather pending)
  braceless : bracesOf pending.flatten = []
  resting : state.skip ≠ 0 → pending = []

namespace Outline

variable {path : String} {state next : ScanState} {pending codes : List (List Char)} {line : Line}
  {lines later : List Line} {last index : Nat}

/-- The code at a line is put together from the pending lines and that line. -/
theorem codeAt_eq_gather
    (opened_eq : state.opened = if pending = [] then none else some (Attribute.gather pending)) :
    state.codeAt line = Attribute.gather (pending ++ [line.code]) := by
  rw [ScanState.codeAt]
  by_cases empty : pending = []
  · rw [if_pos empty] at opened_eq
    rw [opened_eq, empty, List.nil_append, Attribute.gather_singleton]
  · rw [if_neg empty] at opened_eq
    rw [opened_eq, Attribute.gather_concat empty]

/-- A step that reads no declaration counts all braces of its line. -/
theorem depth_of_proceed (made : step state line later = .proceed next)
    (holds : state.Holds pending) (fresh : state.skip = 0)
    (attributes : Attribute.Braceless (pending ++ [line.code])) :
    next.depth = depthAfter state.depth line.code ∧
      (next.Holds [] ∨ next.Holds (pending ++ [line.code])) := by
  have counted : bracesOf (Attribute.peel (state.codeAt line)).rest = bracesOf line.code := by
    rw [codeAt_eq_gather holds.opened_eq, attributes, Attribute.bracesOf_gather, List.flatten_append,
      bracesOf_append, holds.braceless, List.flatten_singleton, List.nil_append]
  have level (empty : (Attribute.peel (state.codeAt line)).rest = []) :
      state.depth = depthAfter state.depth line.code := by
    rw [← depthAfter_bracesOf, ← counted, empty]
    rfl
  have skip_eq := step_skip made
  simp only [step] at made
  split at made
  next blank =>
    obtain rfl := ScanStep.proceed.inj made
    have code_eq : state.codeAt line = [] := List.isEmpty_iff.mp blank
    have nothing : pending = [] := by
      by_contra nonempty
      rw [codeAt_eq_gather holds.opened_eq, Attribute.gather_concat nonempty] at code_eq
      simp at code_eq
    subst nothing
    exact ⟨level (by rw [code_eq]; rfl), .inl holds⟩
  next =>
    split at made
    next unfinished =>
      obtain rfl := ScanStep.proceed.inj made
      have unclosed : (Attribute.peel (state.codeAt line)).closed = false := by
        simpa using unfinished
      have empty := Attribute.rest_peelFrom unclosed
      refine ⟨level empty, .inr ⟨?_, ?_, ?_⟩⟩
      · rw [if_neg (by simp), ← codeAt_eq_gather holds.opened_eq]
      · rw [List.flatten_append, bracesOf_append, holds.braceless, List.flatten_singleton,
          ← counted]
        exact congrArg bracesOf empty
      · exact fun skips => absurd fresh skips
    next =>
      split at made
      next bare =>
        obtain rfl := ScanStep.proceed.inj made
        exact ⟨level (List.isEmpty_iff.mp bare), .inl ⟨rfl, rfl, fun _ => rfl⟩⟩
      next =>
        obtain rfl := atItem_proceed made
        refine ⟨?_, .inl ⟨rfl, rfl, fun _ => rfl⟩⟩
        dsimp only
        rw [← depthAfter_bracesOf, counted, depthAfter_bracesOf]

/-- The brace depth behind the lines that a scan has not read yet. -/
def depthBehind (state : ScanState) (lines : List Line) : Nat :=
  depthAfter state.depth ((lines.map (·.code)).drop state.skip).flatten

/-- A scan comes to lines, the first of which has the given index, and its count of braces is right
so far. -/
structure Accounted (codes : List (List Char)) (state : ScanState) (pending : List (List Char))
    (index : Nat) (lines : List Line) : Prop where
  leading : lines.map (·.code) <+: codes.drop index
  holds : state.Holds pending
  attributes : ∀ run, run <:+: pending ++ lines.map (·.code) → Attribute.Braceless run
  fit : BracesFit state.depth ((lines.map (·.code)).drop state.skip).flatten

namespace Accounted

theorem below (accounted : Accounted codes state pending index (line :: later)) :
    later.map (·.code) <+: codes.drop (index + 1) ∧
      ∀ run, run <:+: [] ++ later.map (·.code) → Attribute.Braceless run := by
  constructor
  · rw [← List.drop_drop]
    exact accounted.leading.drop 1
  · intro run inside
    exact accounted.attributes run (inside.trans ⟨pending ++ [line.code], [], by simp⟩)

theorem skip {skip : Nat} (accounted : Accounted codes state pending index (line :: later))
    (skip_eq : state.skip = skip + 1) :
    Accounted codes { state with skip } [] (index + 1) later ∧
      depthBehind { state with skip } later = depthBehind state (line :: later) := by
  obtain ⟨leading, attributes⟩ := accounted.below
  obtain ⟨-, holds, -, fit⟩ := accounted
  obtain rfl : pending = [] := holds.resting (by omega)
  rw [skip_eq, List.map_cons, List.drop_succ_cons] at fit
  refine ⟨⟨leading, ⟨holds.opened_eq, rfl, fun _ => rfl⟩, attributes, fit⟩, ?_⟩
  rw [depthBehind, depthBehind, skip_eq, List.map_cons, List.drop_succ_cons]

theorem proceed (accounted : Accounted codes state pending index (line :: later))
    (fresh : state.skip = 0) (made : step state line later = .proceed next) :
    ∃ pending, Accounted codes next pending (index + 1) later ∧
      depthBehind next later = depthBehind state (line :: later) := by
  obtain ⟨leading, others⟩ := accounted.below
  obtain ⟨-, holds, attributes, fit⟩ := accounted
  have here : pending ++ [line.code] <:+: pending ++ (line :: later).map (·.code) :=
    ⟨[], later.map (·.code), by simp⟩
  obtain ⟨depth_eq, next_holds⟩ := depth_of_proceed made holds fresh (attributes _ here)
  have next_fresh : next.skip = 0 := (step_skip made).trans fresh
  rw [fresh, List.drop_zero, List.map_cons, List.flatten_cons, bracesFit_append, ← depth_eq] at fit
  have same : depthBehind next later = depthBehind state (line :: later) := by
    rw [depthBehind, depthBehind, fresh, next_fresh, List.drop_zero, List.drop_zero, List.map_cons,
      List.flatten_cons, depthAfter_append state.depth fit.1, ← depth_eq]
  have next_fit : BracesFit next.depth ((later.map (·.code)).drop next.skip).flatten := by
    rw [next_fresh]
    exact fit.2
  rcases next_holds with next_holds | next_holds
  · exact ⟨[], ⟨leading, next_holds, others, next_fit⟩, same⟩
  · refine ⟨pending ++ [line.code], ⟨leading, next_holds, ?_, next_fit⟩, same⟩
    intro run inside
    rw [← List.append_cons, ← List.map_cons] at inside
    exact attributes run inside

theorem behind {extent : Extent} (accounted : Accounted codes state pending index (line :: later))
    (fresh : state.skip = 0) (extent_eq : extent = ⟨index + 1, index + 1 + last⟩)
    (last_le : last ≤ later.length) (nested : Nested (extent.slice codes).flatten) :
    Accounted codes (state.behind last) [] (index + 1) later ∧
      depthBehind (state.behind last) later = depthBehind state (line :: later) := by
  obtain ⟨leading, others⟩ := accounted.below
  have within : last < ((line :: later).map (·.code)).length := by
    simpa using Nat.lt_succ_of_le last_le
  rw [Extent.slice_eq_take extent_eq accounted.leading within] at nested
  have fit := accounted.fit
  rw [fresh, List.drop_zero] at fit
  obtain ⟨behind_fit, same⟩ := nested.drop_flatten fit
  refine ⟨⟨leading, ⟨rfl, rfl, fun _ => rfl⟩, others, behind_fit⟩, ?_⟩
  rw [depthBehind, depthBehind, fresh, List.drop_zero, same]
  rfl

end Accounted

/-- A scan that ends without a fault leaves no brace open. -/
theorem depth_scanFrom {texts : List (List Char)} (excerpt : Excerpt texts index lines)
    (accounted : Accounted codes state pending index lines)
    (complete : (scanFrom path state lines).fault = none)
    (structs : ∀ struct ∈ (scanFrom path state lines).structs,
      Nested (struct.extent.slice codes).flatten)
    (impls : ∀ block ∈ (scanFrom path state lines).impls,
      Nested (block.extent.slice codes).flatten) :
    depthBehind state lines = 0 := by
  fun_induction scanFrom path state lines generalizing index pending with
  | case1 state =>
      simp only [atEnd, Option.map_eq_none_iff] at complete
      rw [depthBehind, List.map_nil, List.drop_nil]
      split at complete
      · contradiction
      · split at complete
        · contradiction
        next settled =>
          change state.depth = 0
          simpa using settled
  | case2 state line later skip skip_eq ih =>
      obtain ⟨next, same⟩ := accounted.skip skip_eq
      rw [← same]
      exact ih excerpt.tail next complete structs impls
  | case3 state line later fresh next made ih =>
      obtain ⟨pending, next, same⟩ := accounted.proceed fresh made
      rw [← same]
      exact ih excerpt.tail next complete structs impls
  | case4 state line later fresh fault made => contradiction
  | case5 state line later fresh struct last made ih =>
      obtain ⟨peeled, -, -, -, found, -, read⟩ := step_struct made
      obtain ⟨last_le, extent_eq, -⟩ := Struct.laidOut_of_read excerpt read
      simp only [addStruct, List.forall_mem_cons] at complete structs impls
      obtain ⟨next, same⟩ := accounted.behind fresh extent_eq last_le structs.1
      rw [← same]
      exact ih excerpt.tail next complete structs.2 impls
  | case6 state line later fresh block last made ih =>
      obtain ⟨peeled, -, -, -, -, read⟩ := step_block made
      obtain ⟨extent_eq, -⟩ := ImplBlock.laidOut_of_read excerpt read
      simp only [addBlock, List.forall_mem_cons] at complete structs impls
      obtain ⟨next, same⟩ :=
        accounted.behind fresh extent_eq (last_le_of_read excerpt read) impls.1
      rw [← same]
      exact ih excerpt.tail next complete structs impls.2

end Outline

/-! ## Contracts -/

namespace Contract

/-- A brace on the lines of a declaration pairs up with another one there, and a brace elsewhere is
counted by the scan. -/
structure BracesApart (codes : List (List Char)) (contract : Contract) : Prop where
  /-- No brace closes what none has opened. -/
  fit : BracesFit 0 (joinLines codes)
  /-- The braces on the lines of a struct pair up. -/
  types_nested : ∀ struct ∈ contract.types, Nested (struct.extent.slice codes).flatten
  /-- The braces on the lines of a block pair up. -/
  impls_nested : ∀ block ∈ contract.impls, Nested (block.extent.slice codes).flatten
  /-- Attributes hold no brace, over however many lines they go. -/
  attributes : ∀ run, run <:+: codes → Attribute.Braceless run

variable {source path : String} {contract : Contract}

/-- An accepted source leaves no brace open. -/
theorem openBraces_eq_zero (parsed : parse source path = .ok contract)
    (apart : contract.BracesApart (mask (linesOf source))) :
    openBraces 0 (joinLines (mask (linesOf source))) = 0 := by
  obtain ⟨outline, first, rest, rfl, complete, -, rfl⟩ := parse_eq_ok parsed
  obtain ⟨fit, structs, impls, attributes⟩ := apart
  have feedless : ∀ text ∈ linesOf source, '\n' ∉ text :=
    fun text mem => (oneLine_of_mem_splitLines mem).feedless
  have start : ScanState.initial.Holds [] := ⟨rfl, rfl, fun _ => rfl⟩
  rw [openBraces_eq_depthAfter fit, ← depthAfter_bracesOf, bracesOf_joinLines, depthAfter_bracesOf]
  rw [← bracesFit_bracesOf, bracesOf_joinLines, bracesFit_bracesOf] at fit
  rw [← Line.map_code_ofTexts] at fit structs impls attributes ⊢
  exact Outline.depth_scanFrom (Excerpt.ofTexts feedless)
    ⟨List.prefix_refl _, start, attributes, fit⟩ complete structs impls

/-- Declarations inside a module, with an attribute over two lines. -/
theorem openBraces_eq_zero_module :
    let struct := "  struct A \x7b\n    x: u8, // \x7b\n  \x7d"
    let function := "    fn f() \x7b\n    \x7d"
    let block := "  impl A \x7b\n" ++ function ++ "\n  \x7d"
    let source := "mod a \x7b\n  #[contracttype]\n  #[derive(Clone,\n    Debug)]\n" ++ struct ++
      "\n  #[contractimpl]\n" ++ block ++ "\n\x7d\n"
    let contract : Contract := {
      name := "A"
      types := [⟨"A", [⟨"x", "u8", .priv, 6⟩], 5, struct⟩]
      impls := [⟨"A", [⟨"f", [], none, .priv, false, 10, function⟩], 9, block⟩]
      source
      path := "a.rs" }
    parse source "a.rs" = .ok contract ∧ contract.BracesApart (mask (linesOf source)) ∧
      openBraces 0 (joinLines (mask (linesOf source))) = 0 := by
  intro struct function block source contract
  have parsed : parse source "a.rs" = .ok contract := by decide +kernel
  have runs : ∀ tail ∈ (mask (linesOf source)).tails, ∀ run ∈ tail.inits,
      Attribute.Braceless run := by decide +kernel
  have apart : contract.BracesApart (mask (linesOf source)) := {
    fit := by decide +kernel
    types_nested := by decide +kernel
    impls_nested := by decide +kernel
    attributes := by
      intro run inside
      obtain ⟨tail, leading, trailing⟩ := List.infix_iff_prefix_suffix.mp inside
      exact runs tail ((List.mem_tails _ _).mpr trailing) run ((List.mem_inits _ _).mpr leading) }
  exact ⟨parsed, apart, openBraces_eq_zero parsed apart⟩

/-- A module that opens behind the end of a struct is never closed. -/
theorem openBraces_behind_struct :
    let struct := "pub struct A \x7b pub x: u64 \x7d mod helpers \x7b"
    let source := "#[contracttype]\n" ++ struct ++ "\n    fn f() \x7b\x7d\n"
    let contract : Contract :=
      ⟨"A", [⟨"A", [⟨"x", "u64", .pub, 2⟩], 2, struct⟩], [], source, "a.rs"⟩
    parse source "a.rs" = .ok contract ∧
      openBraces 0 (joinLines (mask (linesOf source))) = 1 := by
  decide +kernel

end Contract
end SorobanLint
