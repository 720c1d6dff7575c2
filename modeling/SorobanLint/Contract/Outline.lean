import SorobanLint.Contract.ImplBlock
import SorobanLint.Contract.Struct

/-!
# Outlines

One forward scan over the lines of a source finds the marked structs and `impl` blocks.  A marker
attribute counts for the item that follows it, with blank lines, comments and other attributes
between them; all other code is skipped, and only its braces are counted.
-/

namespace SorobanLint

open Text

/-- What a scan finds, and why it stops if it does not reach the end of the source. -/
structure Outline where
  /-- The marked structs in order. -/
  structs : List Struct
  /-- The marked `impl` blocks in order. -/
  impls : List ImplBlock
  /-- Why the scan stops early. -/
  fault : Option Fault
deriving DecidableEq, Repr

/-- What a scan remembers between two lines. -/
structure ScanState where
  /-- The number of lines that belong to a declaration already read. -/
  skip : Nat
  /-- The text of an attribute that is still open, with what stands in front of it. -/
  opened : Option (List Char)
  /-- The names of the attributes in front of the next item. -/
  markers : List (List Char)
  /-- The number of open braces outside the marked declarations. -/
  depth : Nat
deriving DecidableEq, Repr

namespace ScanState

/-- The state at the beginning of a source. -/
def initial : ScanState := ⟨0, none, [], 0⟩

/-- The code that a line ends: the line alone, or behind the attribute that is still open. -/
def codeAt (state : ScanState) (line : Line) : List Char :=
  match state.opened with
  | none => trim line.code
  | some opened => opened ++ ' ' :: trim line.code

/-- The state behind a declaration with so many lines below its first. -/
def behind (state : ScanState) (lines : Nat) : ScanState :=
  { state with skip := lines, opened := none, markers := [] }

end ScanState

/-- What a scan does at a line that belongs to no declaration read before. -/
inductive ScanStep where
  /-- Go on below the line in the given state. -/
  | proceed (next : ScanState)
  /-- Give up. -/
  | stop (fault : Fault)
  /-- Record a struct with so many lines below its first. -/
  | struct (struct : Struct) (last : Nat)
  /-- Record a block with so many lines below its first. -/
  | block (block : ImplBlock) (last : Nat)
deriving DecidableEq, Repr

namespace Outline

/-- The names of the attributes that mark a struct. -/
def typeMarkers : List (List Char) := ["contracttype".toList, "contract".toList]

/-- The name of the attribute that marks an `impl` block. -/
def implMarker : List Char := "contractimpl".toList

/-- A scan that has reached the end of the source named by `path`. -/
def atEnd (path : String) (state : ScanState) : Outline :=
  let fault :=
    if state.opened.isSome then some StructureFault.openAttribute
    else if state.depth ≠ 0 then some (.openBraces state.depth path)
    else none
  ⟨[], [], fault.map .unfinished⟩

/-- An outline that ends with a fault. -/
def stopped (fault : Fault) : Outline := ⟨[], [], some fault⟩

/-- The outline with a struct in front. -/
def addStruct (outline : Outline) (struct : Struct) : Outline :=
  { outline with structs := struct :: outline.structs }

/-- The outline with a block in front. -/
def addBlock (outline : Outline) (block : ImplBlock) : Outline :=
  { outline with impls := block :: outline.impls }

/-- What a scan does at the code `rest` that stands behind the attributes of a line: it reads a
marked struct or a marked block, or it counts the braces of other code. -/
def atItem (state : ScanState) (markers : List (List Char)) (rest : List Char) (line : Line)
    (later : List Line) : ScanStep :=
  match typeMarkers.any markers.contains, Struct.header.match? rest with
  | true, some found =>
    match Struct.read (line.codeFrom rest) found line later with
    | .error fault => .stop (.unfinished fault)
    | .ok (struct, last) => .struct struct last
  | _, _ =>
    if markers.contains implMarker && ImplBlock.header.isHeadOf rest then
      match ImplBlock.read rest line later with
      | .error fault => .stop fault
      | .ok (block, last) => .block block last
    else
      let depth := ImplBlock.depthAfter state.depth rest
      .proceed { state with opened := none, markers := [], depth }

/-- What a scan does at a line, given the lines below it. -/
def step (state : ScanState) (line : Line) (later : List Line) : ScanStep :=
  let code := state.codeAt line
  let peeled := Attribute.peel code
  let markers := state.markers ++ peeled.names
  if code.isEmpty then .proceed state
  else if !peeled.closed then .proceed { state with opened := some code }
  else if peeled.rest.isEmpty then .proceed { state with opened := none, markers }
  else atItem state markers peeled.rest line later

/-- Scan the lines from the given state on. -/
def scanFrom (path : String) : ScanState → List Line → Outline
  | state, [] => atEnd path state
  | state, line :: later =>
    match state.skip with
    | skip + 1 => scanFrom path { state with skip } later
    | 0 =>
      match step state line later with
      | .proceed next => scanFrom path next later
      | .stop fault => stopped fault
      | .struct struct last => (scanFrom path (state.behind last) later).addStruct struct
      | .block block last => (scanFrom path (state.behind last) later).addBlock block

section Steps

variable {path : String} {state next : ScanState} {line : Line} {later : List Line} {last : Nat}

theorem scanFrom_proceed (fresh : state.skip = 0) (made : step state line later = .proceed next) :
    scanFrom path state (line :: later) = scanFrom path next later := by
  rw [scanFrom]
  simp only [fresh, made]

theorem scanFrom_stop {fault : Fault} (fresh : state.skip = 0)
    (made : step state line later = .stop fault) :
    scanFrom path state (line :: later) = stopped fault := by
  rw [scanFrom]
  simp only [fresh, made]

theorem scanFrom_struct {struct : Struct} (fresh : state.skip = 0)
    (made : step state line later = .struct struct last) :
    scanFrom path state (line :: later) =
      (scanFrom path (state.behind last) later).addStruct struct := by
  rw [scanFrom]
  simp only [fresh, made]

theorem scanFrom_block {block : ImplBlock} (fresh : state.skip = 0)
    (made : step state line later = .block block last) :
    scanFrom path state (line :: later) =
      (scanFrom path (state.behind last) later).addBlock block := by
  rw [scanFrom]
  simp only [fresh, made]

/-- The lines that a scan skips are as good as absent. -/
theorem scanFrom_drop (state : ScanState) (lines : List Line) :
    scanFrom path state lines = scanFrom path { state with skip := 0 } (lines.drop state.skip) := by
  induction lines generalizing state with
  | nil => simp [scanFrom, atEnd]
  | cons line later ih =>
      cases skipped : state.skip with
      | zero => rw [List.drop_zero, ← skipped]
      | succ skip =>
          rw [List.drop_succ_cons, scanFrom]
          simp only [skipped]
          rw [ih]

end Steps

/-- Scan the lines of the source named by `path`. -/
def scan (path : String) (lines : List Line) : Outline :=
  scanFrom path .initial lines

end Outline
end SorobanLint
