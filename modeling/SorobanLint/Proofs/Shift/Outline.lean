import SorobanLint.Contract.Outline
import Mathlib

/-!
# Moving lines down

Nothing but a line number depends on where a line stands.  So when the numbers of all lines grow by
`k`, every reader returns what it returned before with all line numbers greater by `k`, those in its
faults included, and so does a whole scan (`Outline.scanFrom_shift`).
-/

namespace SorobanLint

open Text

variable (k : Nat)

/-! ## Shifted data -/

/-- The line with a number greater by `k`. -/
def Line.shift (line : Line) : Line :=
  { line with number := line.number + k }

/-- The field on a line further down by `k`. -/
def Field.shift (field : Field) : Field :=
  { field with line := field.line + k }

/-- The struct with its fields, further down by `k`. -/
def Struct.shift (struct : Struct) : Struct :=
  { struct with line := struct.line + k, fields := struct.fields.map (·.shift k) }

/-- The function further down by `k`. -/
def Function.shift (function : Function) : Function :=
  { function with line := function.line + k }

/-- The block with its functions, further down by `k`. -/
def ImplBlock.shift (block : ImplBlock) : ImplBlock :=
  { block with line := block.line + k, functions := block.functions.map (·.shift k) }

/-- The fault on lines further down by `k`. -/
def StructureFault.shift : StructureFault → StructureFault
  | openAttribute => openAttribute
  | openBraces count path => openBraces count path
  | openHeader expected line => openHeader expected (line + k)
  | openBlock line => openBlock (line + k)
  | implWithoutBlock line => implWithoutBlock (line + k)
  | wrongCloser name line closer offset => wrongCloser name (line + k) closer offset
  | openParams name line => openParams name (line + k)
  | functionWithoutBody name line => functionWithoutBody name (line + k)

/-- The fault on lines further down by `k`. -/
def Fault.shift : Fault → Fault
  | unfinished fault => unfinished (fault.shift k)
  | lostHeader line => lostHeader (line + k)

/-- The step with the declaration that it records, further down by `k`. -/
def ScanStep.shift : ScanStep → ScanStep
  | proceed next => proceed next
  | stop fault => stop (fault.shift k)
  | struct found last => struct (found.shift k) last
  | block found last => block (found.shift k) last

/-- The outline with all its declarations, further down by `k`. -/
def Outline.shift (outline : Outline) : Outline where
  structs := outline.structs.map (·.shift k)
  impls := outline.impls.map (·.shift k)
  fault := outline.fault.map (·.shift k)

/-! ## Lines -/

namespace Line

variable {k}

@[simp]
theorem shift_number (line : Line) : (line.shift k).number = line.number + k := rfl

@[simp]
theorem shift_code (line : Line) : (line.shift k).code = line.code := rfl

@[simp]
theorem shift_raw (line : Line) : (line.shift k).raw = line.raw := rfl

@[simp]
theorem shift_codeFrom (line : Line) (rest : List Char) :
    (line.shift k).codeFrom rest = line.codeFrom rest := rfl

@[simp]
theorem shift_item (line : Line) : (line.shift k).item = line.item := rfl

@[simp]
theorem map_code_shift (lines : List Line) :
    (lines.map (·.shift k)).map (·.code) = lines.map (·.code) := by
  simp

@[simp]
theorem codeText_shift (header : List Char) (later : List Line) :
    codeText header (later.map (·.shift k)) = codeText header later := by
  rw [codeText, map_code_shift, codeText]

@[simp]
theorem rawThrough_shift (first : Line) (later : List Line) (last : Nat) :
    rawThrough (first.shift k :: later.map (·.shift k)) last =
      rawThrough (first :: later) last := by
  simp [rawThrough, Function.comp_def]

theorem numberFrom_add (n : Nat) (raws codes : List (List Char)) :
    numberFrom (n + k) raws codes = (numberFrom n raws codes).map (·.shift k) := by
  induction raws generalizing n codes with
  | nil => rfl
  | cons raw raws ih =>
      cases codes with
      | nil => rfl
      | cons code codes =>
          rw [numberFrom, numberFrom, List.map_cons, Nat.add_right_comm, ih]
          rfl

end Line

/-! ## Structs -/

namespace Field

variable {k}

theorem parse?_add (text : List Char) (line : Int) :
    parse? text (line + k) = (parse? text line).map (·.shift k) := by
  unfold parse?
  generalize Visibility.split (declaration text) = parts
  obtain ⟨visibility, rest⟩ := parts
  dsimp only
  cases rest.dropWhile (· ≠ ':') with
  | nil => rfl
  | cons colon behind =>
      dsimp only
      split
      · rfl
      · rfl

theorem readFrom_add (line : Nat) (parts : List (List Char)) :
    readFrom (line + k) parts = (readFrom line parts).map (·.shift k) := by
  induction parts generalizing line with
  | nil => rfl
  | cons part rest ih =>
      have head := parse?_add (k := k) part
        ((line + lineFeeds (part.takeWhile isBlank) : Nat) : Int)
      have moved : ((line + k + lineFeeds (part.takeWhile isBlank) : Nat) : Int) =
          ((line + lineFeeds (part.takeWhile isBlank) : Nat) : Int) + k := by omega
      rw [readFrom, readFrom, moved, head, Nat.add_right_comm, ih, List.map_append,
        Option.toList_map]

end Field

namespace Struct

variable {k}

theorem body_add (text : List Char) (line : Nat) :
    body text (line + k) = ((body text line).mapError (·.shift k)).map
      fun (fields, last) => (fields.map (·.shift k), last) := by
  unfold body
  split
  · rfl
  next before opener after found =>
    simp only [Nat.add_right_comm line k]
    split
    next =>
      split
      · rfl
      · simp [Except.mapError, Except.map, Field.readAll, Field.readFrom_add]
    next =>
      split
      next => split <;> rfl
      next => rfl

theorem read_shift (text : List Char) (found : Match) (first : Line) (later : List Line) :
    read text found (first.shift k) (later.map (·.shift k)) =
      ((read text found first later).mapError (·.shift k)).map
        fun (struct, last) => (struct.shift k, last) := by
  unfold read
  simp only [Line.codeText_shift, Line.shift_number, body_add, Line.rawThrough_shift]
  cases body (Line.codeText (text.drop found.stop.offset) later) first.number with
  | error fault => rfl
  | ok value => rfl

end Struct

/-! ## Functions -/

namespace Function

variable {k}

theorem find_add (name : String) (line : Nat) (text : List Char) :
    Signature.find name (line + k) text = (Signature.find name line text).mapError (·.shift k) := by
  unfold Signature.find
  split
  · rfl
  · rfl
  · split <;> rfl

theorem lastLine_add (codes : List (List Char)) (line offset : Nat) (opener : Char) :
    lastLine codes (line + k) offset opener =
      (lastLine codes line offset opener).mapError (·.shift k) := by
  unfold lastLine
  simp only [Nat.add_right_comm line k]
  split
  · split <;> rfl
  · rfl

theorem readFound_shift (target text : List Char) (found : Match) (first : Line)
    (later : List Line) :
    readFound target text found (first.shift k) (later.map (·.shift k)) =
      ((readFound target text found first later).mapError (·.shift k)).map
        fun (function, last) => (function.shift k, last) := by
  unfold readFound
  simp only [Line.map_code_shift, Line.shift_number, find_add, lastLine_add,
    Line.rawThrough_shift]
  cases Signature.find (String.ofList found.captured) first.number
      ((joinLines (text :: later.map (·.code))).drop found.stop.offset) with
  | error fault => rfl
  | ok signature =>
      simp only [Except.mapError, bind, Except.bind]
      cases lastLine (text :: later.map (·.code)) first.number
          (found.stop.offset + signature.bodyOffset) signature.opener with
      | error fault => rfl
      | ok last => rfl

theorem read_shift (target item : List Char) (first : Line) (later : List Line) :
    read target item (first.shift k) (later.map (·.shift k)) =
      ((read target item first later).mapError (·.shift k)).map
        fun (function, last) => (function.shift k, last) := by
  unfold read
  simp only [Line.shift_codeFrom]
  split
  · rfl
  next found matched =>
    rw [readFound_shift]
    cases readFound target (first.codeFrom item) found first later <;> rfl

end Function

/-! ## Blocks -/

namespace ImplBlock

variable {k}

theorem readFunctions_shift (target : List Char) (skip depth : Nat) (lines : List Line) :
    readFunctions target skip depth (lines.map (·.shift k)) =
      ((readFunctions target skip depth lines).mapError (·.shift k)).map
        fun functions => functions.map (·.shift k) := by
  fun_induction readFunctions target skip depth lines with
  | case1 => rfl
  | case2 => rfl
  | case3 skip depth line next rest ih =>
      rw [List.map_cons] at ih
      rw [List.map_cons, List.map_cons, readFunctions, ih]
  | case4 depth line next rest isHeader ih =>
      have head := Function.read_shift (k := k) target line.item line (next :: rest)
      rw [List.map_cons, List.map_cons, readFunctions, Line.shift_item, if_pos isHeader,
        ← List.map_cons, head]
      cases Function.read target line.item line (next :: rest) with
      | error fault => rfl
      | ok value =>
          obtain ⟨function, last⟩ := value
          simp only [Except.mapError, Except.map, bind, Except.bind, ih last]
          cases readFunctions target last 0 (next :: rest) <;> rfl
  | case5 depth line next rest notHeader ih =>
      rw [List.map_cons] at ih
      rw [List.map_cons, List.map_cons, readFunctions, Line.shift_item, Line.shift_code,
        if_neg notHeader, ih]

theorem read_shift (item : List Char) (first : Line) (later : List Line) :
    read item (first.shift k) (later.map (·.shift k)) =
      ((read item first later).mapError (·.shift k)).map
        fun (block, last) => (block.shift k, last) := by
  unfold read
  simp only [Line.shift_codeFrom, Line.codeText_shift, Line.shift_number, Line.rawThrough_shift,
    Nat.add_right_comm first.number k, ← List.map_drop, ← List.map_take, readFunctions_shift]
  split
  · rfl
  next before opener after found =>
    split
    · rfl
    next =>
      split
      · rfl
      next inner tail closed =>
        cases readFunctions (targetOf before) 0 0
            ((later.drop (lineFeeds before)).take (lineFeeds inner)) <;> rfl

end ImplBlock

/-! ## Scans -/

namespace Outline

variable {k}

theorem addStruct_shift (outline : Outline) (struct : Struct) :
    (outline.addStruct struct).shift k = (outline.shift k).addStruct (struct.shift k) := rfl

theorem addBlock_shift (outline : Outline) (block : ImplBlock) :
    (outline.addBlock block).shift k = (outline.shift k).addBlock (block.shift k) := rfl

theorem atItem_shift (state : ScanState) (markers : List (List Char)) (rest : List Char)
    (line : Line) (later : List Line) :
    atItem state markers rest (line.shift k) (later.map (·.shift k)) =
      (atItem state markers rest line later).shift k := by
  unfold atItem
  split
  next found marked matched =>
    rw [Line.shift_codeFrom, Struct.read_shift]
    cases Struct.read (line.codeFrom rest) found line later <;> rfl
  next =>
    split
    next =>
      rw [ImplBlock.read_shift]
      cases ImplBlock.read rest line later <;> rfl
    next => rfl

theorem step_shift (state : ScanState) (line : Line) (later : List Line) :
    step state (line.shift k) (later.map (·.shift k)) = (step state line later).shift k := by
  have code_eq : state.codeAt (line.shift k) = state.codeAt line := rfl
  simp only [step, code_eq, atItem_shift]
  split
  · rfl
  · split
    · rfl
    · split <;> rfl

/-- The fault at the end of a source names no line. -/
theorem atEnd_shift (path : String) (state : ScanState) :
    (atEnd path state).shift k = atEnd path state := by
  unfold atEnd
  simp only
  split
  · rfl
  · split <;> rfl

/-- A scan of lines with greater numbers finds the same declarations, further down. -/
theorem scanFrom_shift (path : String) (state : ScanState) (lines : List Line) :
    scanFrom path state (lines.map (·.shift k)) = (scanFrom path state lines).shift k := by
  fun_induction scanFrom path state lines with
  | case1 state => exact (atEnd_shift path state).symm
  | case2 state line later skip skip_eq ih =>
      rw [List.map_cons, scanFrom]
      simp only [skip_eq]
      exact ih
  | case3 state line later fresh next made ih =>
      have moved : step state (line.shift k) (later.map (·.shift k)) = .proceed next := by
        rw [step_shift, made, ScanStep.shift]
      rw [List.map_cons, scanFrom_proceed fresh moved, ih]
  | case4 state line later fresh fault made =>
      have moved : step state (line.shift k) (later.map (·.shift k)) = .stop (fault.shift k) := by
        rw [step_shift, made, ScanStep.shift]
      rw [List.map_cons, scanFrom_stop fresh moved]
      rfl
  | case5 state line later fresh struct last made ih =>
      have moved : step state (line.shift k) (later.map (·.shift k)) =
          .struct (struct.shift k) last := by
        rw [step_shift, made, ScanStep.shift]
      rw [List.map_cons, scanFrom_struct fresh moved, ih, addStruct_shift]
  | case6 state line later fresh block last made ih =>
      have moved : step state (line.shift k) (later.map (·.shift k)) =
          .block (block.shift k) last := by
        rw [step_shift, made, ScanStep.shift]
      rw [List.map_cons, scanFrom_block fresh moved, ih, addBlock_shift]

end Outline
end SorobanLint
