import SorobanLint.Contract.Outline
import Mathlib

/-!
# What the shape of a contract depends on

The raw text of a line only ever goes into definitions.  So when the raw texts are taken away,
every reader still returns the same declarations up to their definitions, and the same faults; so
does a whole scan (`Outline.scanFrom_bare`).
-/

namespace SorobanLint

open Text

/-! ## Bare data -/

/-- The line without its raw text. -/
def Line.bare (line : Line) : Line := { line with raw := [] }

/-- The struct without its definition. -/
def Struct.bare (struct : Struct) : Struct := { struct with definition := "" }

/-- The function without its definition. -/
def Function.bare (function : Function) : Function := { function with definition := "" }

/-- The block without its definition and those of its functions. -/
def ImplBlock.bare (block : ImplBlock) : ImplBlock :=
  { block with definition := "", functions := block.functions.map (·.bare) }

/-- The step with the declaration that it records, without definitions. -/
def ScanStep.bare : ScanStep → ScanStep
  | proceed next => proceed next
  | stop fault => stop fault
  | struct found last => struct found.bare last
  | block found last => block found.bare last

/-- The outline with all its declarations, without definitions. -/
def Outline.bare (outline : Outline) : Outline where
  structs := outline.structs.map (·.bare)
  impls := outline.impls.map (·.bare)
  fault := outline.fault

/-- Two results that become equal under a map are both errors or both values. -/
theorem map_eq_map_iff {ε α β : Type} {f : α → β} {left right : Except ε α} :
    left.map f = right.map f ↔
      (∃ error, left = .error error ∧ right = .error error) ∨
        ∃ a b, left = .ok a ∧ right = .ok b ∧ f a = f b := by
  cases left <;> cases right <;> simp [Except.map, eq_comm]

/-! ## Lines -/

namespace Line

@[simp]
theorem map_code_bare (lines : List Line) :
    (lines.map (·.bare)).map (·.code) = lines.map (·.code) := by
  rw [List.map_map]
  rfl

@[simp]
theorem codeText_bare (header : List Char) (later : List Line) :
    codeText header (later.map (·.bare)) = codeText header later := by
  rw [codeText, map_code_bare, codeText]

/-- Without raw texts only the numbers and the masked texts count. -/
theorem map_bare_numberFrom {n : Nat} {first second codes : List (List Char)}
    (first_length : codes.length = first.length) (second_length : codes.length = second.length) :
    (numberFrom n first codes).map (·.bare) = (numberFrom n second codes).map (·.bare) := by
  induction codes generalizing n first second with
  | nil =>
      obtain rfl := List.length_eq_zero_iff.mp first_length.symm
      obtain rfl := List.length_eq_zero_iff.mp second_length.symm
      rfl
  | cons code codes ih =>
      obtain ⟨raw, first, rfl⟩ := List.exists_cons_of_length_eq_add_one first_length.symm
      obtain ⟨other, second, rfl⟩ := List.exists_cons_of_length_eq_add_one second_length.symm
      rw [numberFrom, numberFrom, List.map_cons, List.map_cons,
        ih (Nat.succ.inj first_length) (Nat.succ.inj second_length)]
      rfl

end Line

/-! ## Declarations -/

theorem Struct.read_bare (text : List Char) (found : Match) (first : Line) (later : List Line) :
    (read text found first.bare (later.map (·.bare))).map
        (fun (struct, last) => (struct.bare, last)) =
      (read text found first later).map fun (struct, last) => (struct.bare, last) := by
  unfold read
  rw [Line.codeText_bare]
  change (body _ first.number >>= _).map _ = (body _ first.number >>= _).map _
  cases body (Line.codeText (text.drop found.stop.offset) later) first.number with
  | error fault => rfl
  | ok value => rfl

theorem Function.readFound_bare (target text : List Char) (found : Match) (first : Line)
    (later : List Line) :
    (readFound target text found first.bare (later.map (·.bare))).map
        (fun (function, last) => (function.bare, last)) =
      (readFound target text found first later).map
        fun (function, last) => (function.bare, last) := by
  unfold readFound
  simp only [Line.map_code_bare]
  change (Signature.find _ first.number _ >>= _).map _ = _
  cases Signature.find (String.ofList found.captured) first.number
      ((joinLines (text :: later.map (·.code))).drop found.stop.offset) with
  | error fault => rfl
  | ok signature =>
      change (lastLine _ first.number _ _ >>= _).map _ = (lastLine _ first.number _ _ >>= _).map _
      cases lastLine (text :: later.map (·.code)) first.number
          (found.stop.offset + signature.bodyOffset) signature.opener with
      | error fault => rfl
      | ok last => rfl

theorem Function.read_bare (target item : List Char) (first : Line) (later : List Line) :
    (read target item first.bare (later.map (·.bare))).map
        (fun (function, last) => (function.bare, last)) =
      (read target item first later).map fun (function, last) => (function.bare, last) := by
  have same_code : first.bare.codeFrom item = first.codeFrom item := rfl
  unfold read
  simp only [same_code]
  cases header.match? (first.codeFrom item) with
  | none => rfl
  | some found =>
      have inside := readFound_bare target (first.codeFrom item) found first later
      rcases map_eq_map_iff.mp inside with ⟨fault, bare_eq, eq⟩ | ⟨a, b, bare_eq, eq, same⟩
      · simp only [bare_eq, eq, Except.mapError, Except.map]
      · simp only [bare_eq, eq, Except.mapError, Except.map, same]

namespace ImplBlock

theorem readFunctions_bare (target : List Char) (skip depth : Nat) (lines : List Line) :
    (readFunctions target skip depth (lines.map (·.bare))).map (·.map (·.bare)) =
      (readFunctions target skip depth lines).map (·.map (·.bare)) := by
  fun_induction readFunctions target skip depth lines with
  | case1 => rfl
  | case2 => rfl
  | case3 skip depth line next rest ih =>
      rw [List.map_cons] at ih
      rw [List.map_cons, List.map_cons, readFunctions, ih]
  | case4 depth line next rest isHeader ih =>
      have head := Function.read_bare target line.item line (next :: rest)
      have item_eq : line.bare.item = line.item := rfl
      rw [List.map_cons, List.map_cons, readFunctions, item_eq, if_pos isHeader, ← List.map_cons]
      rcases map_eq_map_iff.mp head with ⟨fault, bare_eq, eq⟩ | ⟨a, b, bare_eq, eq, same⟩
      · rw [bare_eq, eq]
        rfl
      · obtain ⟨function, last⟩ := a
        obtain ⟨other, other_last⟩ := b
        obtain ⟨function_eq, rfl⟩ := Prod.mk.inj same
        rw [bare_eq, eq]
        rcases map_eq_map_iff.mp (ih last) with
          ⟨fault, bare_below, below⟩ | ⟨as, bs, bare_below, below, same_below⟩
        · simp only [bind, Except.bind, bare_below, below]
        · simp only [bind, Except.bind, bare_below, below]
          change Except.ok (function.bare :: as.map _) = Except.ok (other.bare :: bs.map _)
          rw [function_eq, same_below]
  | case5 depth line next rest notHeader ih =>
      have item_eq : line.bare.item = line.item := rfl
      have code_eq : line.bare.code = line.code := rfl
      rw [List.map_cons] at ih
      rw [List.map_cons, List.map_cons, readFunctions, item_eq, code_eq, if_neg notHeader, ih]

theorem read_bare (item : List Char) (first : Line) (later : List Line) :
    (read item first.bare (later.map (·.bare))).map (fun (block, last) => (block.bare, last)) =
      (read item first later).map fun (block, last) => (block.bare, last) := by
  have same_code : first.bare.codeFrom item = first.codeFrom item := rfl
  have same_number : first.bare.number = first.number := rfl
  unfold read
  simp only [same_code, same_number, Line.codeText_bare, ← List.map_drop, ← List.map_take]
  split
  · rfl
  next before opener after found =>
    split
    · rfl
    next =>
      split
      · rfl
      next inner tail closed =>
        have inside := readFunctions_bare (targetOf before) 0 0
          ((later.drop (lineFeeds before)).take (lineFeeds inner))
        rcases map_eq_map_iff.mp inside with ⟨fault, bare_eq, eq⟩ | ⟨as, bs, bare_eq, eq, same⟩
        · simp only [bare_eq, eq]
          rfl
        · simp only [bare_eq, eq]
          change Except.ok (_, _) = Except.ok (_, _)
          simp only [ImplBlock.bare, same]

end ImplBlock

/-! ## Scans -/

namespace ScanStep

variable {step : ScanStep} {last : Nat}

theorem bare_eq_proceed {next : ScanState} : step.bare = .proceed next ↔ step = .proceed next := by
  cases step <;> simp [bare]

theorem bare_eq_stop {fault : Fault} : step.bare = .stop fault ↔ step = .stop fault := by
  cases step <;> simp [bare]

theorem bare_eq_struct {struct : Struct} :
    step.bare = .struct struct last ↔ ∃ found, step = .struct found last ∧ found.bare = struct := by
  cases step <;> simp [bare, and_comm]

theorem bare_eq_block {block : ImplBlock} :
    step.bare = .block block last ↔ ∃ found, step = .block found last ∧ found.bare = block := by
  cases step <;> simp [bare, and_comm]

end ScanStep

namespace Outline

theorem atItem_bare (state : ScanState) (markers : List (List Char)) (rest : List Char)
    (line : Line) (later : List Line) :
    (atItem state markers rest line.bare (later.map (·.bare))).bare =
      (atItem state markers rest line later).bare := by
  have same_code : line.bare.codeFrom rest = line.codeFrom rest := rfl
  unfold atItem
  split
  next found marked matched =>
    rw [same_code]
    rcases map_eq_map_iff.mp (Struct.read_bare (line.codeFrom rest) found line later) with
      ⟨fault, bare_eq, eq⟩ | ⟨⟨a, last⟩, ⟨b, _⟩, bare_eq, eq, same⟩
    · rw [bare_eq, eq]
    · obtain ⟨struct_eq, rfl⟩ := Prod.mk.inj same
      rw [bare_eq, eq]
      exact congrArg (ScanStep.struct · last) struct_eq
  next =>
    split
    next =>
      rcases map_eq_map_iff.mp (ImplBlock.read_bare rest line later) with
        ⟨fault, bare_eq, eq⟩ | ⟨⟨a, last⟩, ⟨b, _⟩, bare_eq, eq, same⟩
      · rw [bare_eq, eq]
      · obtain ⟨block_eq, rfl⟩ := Prod.mk.inj same
        rw [bare_eq, eq]
        exact congrArg (ScanStep.block · last) block_eq
    next => rfl

theorem step_bare (state : ScanState) (line : Line) (later : List Line) :
    (step state line.bare (later.map (·.bare))).bare = (step state line later).bare := by
  have code_eq : state.codeAt line.bare = state.codeAt line := rfl
  simp only [step, code_eq]
  split
  · rfl
  · split
    · rfl
    · split
      · rfl
      · exact atItem_bare state _ _ line later

theorem addStruct_bare (outline : Outline) (struct : Struct) :
    (outline.addStruct struct).bare = outline.bare.addStruct struct.bare := rfl

theorem addBlock_bare (outline : Outline) (block : ImplBlock) :
    (outline.addBlock block).bare = outline.bare.addBlock block.bare := rfl

/-- A scan of lines without raw texts finds the same declarations, without definitions. -/
theorem scanFrom_bare (path : String) (state : ScanState) (lines : List Line) :
    (scanFrom path state (lines.map (·.bare))).bare = (scanFrom path state lines).bare := by
  fun_induction scanFrom path state lines with
  | case1 state => rfl
  | case2 state line later skip skip_eq ih =>
      rw [List.map_cons, scanFrom]
      simp only [skip_eq]
      exact ih
  | case3 state line later fresh next made ih =>
      have stripped := made ▸ step_bare state line later
      rw [List.map_cons, scanFrom_proceed fresh (ScanStep.bare_eq_proceed.mp stripped), ih]
  | case4 state line later fresh fault made =>
      have stripped := made ▸ step_bare state line later
      rw [List.map_cons, scanFrom_stop fresh (ScanStep.bare_eq_stop.mp stripped)]
  | case5 state line later fresh struct last made ih =>
      have stripped := made ▸ step_bare state line later
      obtain ⟨found, bare_made, same⟩ := ScanStep.bare_eq_struct.mp stripped
      rw [List.map_cons, scanFrom_struct fresh bare_made, addStruct_bare, addStruct_bare, ih, same]
  | case6 state line later fresh block last made ih =>
      have stripped := made ▸ step_bare state line later
      obtain ⟨found, bare_made, same⟩ := ScanStep.bare_eq_block.mp stripped
      rw [List.map_cons, scanFrom_block fresh bare_made, addBlock_bare, addBlock_bare, ih, same]

end Outline
end SorobanLint
