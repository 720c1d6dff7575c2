import SorobanLint.Proofs.Indexed.Block
import SorobanLint.Proofs.Scan

/-!
# Contracts by index

The parser as a whole, as a loop over the indices of the lines: an attribute that is open at the end
of a line is closed on one of the lines below, the column of the item behind it is found on that
line, and the loop goes on behind the last line of each declaration.
-/

namespace SorobanLint

open Text

namespace Outline

/-- The declarations of a scan that reaches the end of the source; else why it does not. -/
def outcome (outline : Outline) : Except Fault (List Struct × List ImplBlock) :=
  match outline.fault with
  | some fault => .error fault
  | none => .ok (outline.structs, outline.impls)

theorem outcome_addStruct (outline : Outline) (struct : Struct) :
    (outline.addStruct struct).outcome =
      outline.outcome >>= fun (structs, impls) => pure (struct :: structs, impls) := by
  obtain ⟨structs, impls, fault⟩ := outline
  cases fault <;> rfl

theorem outcome_addBlock (outline : Outline) (block : ImplBlock) :
    (outline.addBlock block).outcome =
      outline.outcome >>= fun (structs, impls) => pure (structs, block :: impls) := by
  obtain ⟨structs, impls, fault⟩ := outline
  cases fault <;> rfl

theorem fault_of_outcome {outline : Outline} {fault : Fault}
    (failed : outline.outcome = .error fault) : outline.fault = some fault := by
  unfold outcome at failed
  split at failed <;> simp_all

theorem eq_of_outcome {outline : Outline} {structs : List Struct} {blocks : List ImplBlock}
    (ended : outline.outcome = .ok (structs, blocks)) : outline = ⟨structs, blocks, none⟩ := by
  obtain ⟨found, impls, fault⟩ := outline
  unfold outcome at ended
  split at ended <;> simp_all

end Outline

namespace Indexed

/-! ## The attributes in front of an item -/

/-- Join the lines below the one with the index `index` to its code until no attribute is open at
the end; there are `count` lines.  Also the index of the last line that is joined. -/
def closeAttribute (codes : List (List Char)) (count index : Nat) (code : List Char) :
    Access (Nat × Peeled) := do
  let peeled ← peel code
  if peeled.closed then return (index, peeled)
  else if count ≤ index + 1 then throw .openAttribute
  else
    let next ← Access.get codes (index + 1)
    closeAttribute codes count (index + 1) (code ++ ' ' :: trim next)
termination_by count - index

/-- A scan that has left an attribute open remembers its text. -/
def Unclosed (state : ScanState) : Prop :=
  ∀ opened ∈ state.opened, (Attribute.peel opened).closed = false

section Attributes

variable {texts : List (List Char)} {above later : List Line} {line : Line} {state : ScanState}

/-- What stands behind the attributes stands on the line that closes them. -/
theorem item_suffix_line (unclosed : Unclosed state) (line : Line) :
    (Attribute.peel (state.codeAt line)).rest <:+ trim line.code := by
  cases opened : state.opened with
  | none =>
      rw [ScanState.codeAt, opened]
      exact (Attribute.rest_suffix none (trim line.code)).1
  | some text =>
      have behind := Attribute.rest_suffix_of_open (unclosed text opened) (' ' :: trim line.code)
      have solid := (Attribute.rest_suffix none (text ++ ' ' :: trim line.code)).2
      rw [ScanState.codeAt, opened, Attribute.peel]
      rcases List.suffix_cons_iff.mp behind with whole | inside
      · rw [whole] at solid
        exact absurd (solid ' ' rfl) (by decide)
      · exact inside

/-- A scan goes on from the line with the given index to one at whose end no attribute is open; in
between it neither meets an item nor completes an attribute. -/
structure Reaches (texts : List (List Char)) (path : String) (index : Nat) (state : ScanState)
    (lines upper : List Line) (line : Line) (later : List Line) (next : ScanState) : Prop where
  cut : Line.ofTexts texts = upper ++ line :: later ++ []
  below : index ≤ upper.length
  fresh : next.skip = 0
  unclosed : Unclosed next
  nonempty : next.codeAt line ≠ []
  closed : (Attribute.peel (next.codeAt line)).closed = true
  markers_eq : next.markers = state.markers
  depth_eq : next.depth = state.depth
  scan_eq : Outline.scanFrom path state lines = Outline.scanFrom path next (line :: later)

theorem Reaches.here (cut : Line.ofTexts texts = above ++ line :: later ++ [])
    (fresh : state.skip = 0) (unclosed : Unclosed state) (nonempty : state.codeAt line ≠ [])
    (closed : (Attribute.peel (state.codeAt line)).closed = true) (path : String) :
    Reaches texts path above.length state (line :: later) above line later state where
  cut := cut
  below := Nat.le_refl _
  fresh := fresh
  unclosed := unclosed
  nonempty := nonempty
  closed := closed
  markers_eq := rfl
  depth_eq := rfl
  scan_eq := rfl

theorem step_of_open (nonempty : state.codeAt line ≠ [])
    (unfinished : (Attribute.peel (state.codeAt line)).closed = false) (later : List Line) :
    Outline.step state line later = .proceed { state with opened := some (state.codeAt line) } := by
  simp [Outline.step, nonempty, unfinished]

theorem step_of_closed (nonempty : state.codeAt line ≠ [])
    (closed : (Attribute.peel (state.codeAt line)).closed = true) (later : List Line) :
    Outline.step state line later =
      if (Attribute.peel (state.codeAt line)).rest.isEmpty then
        .proceed { state with
          opened := none
          markers := state.markers ++ (Attribute.peel (state.codeAt line)).names }
      else
        Outline.atItem state (state.markers ++ (Attribute.peel (state.codeAt line)).names)
          (Attribute.peel (state.codeAt line)).rest line later := by
  simp [Outline.step, nonempty, closed]

theorem closeAttribute_of_closed {code : List Char} (solid : ∀ c ∈ code.head?, isBlank c = false)
    (closed : (Attribute.peel code).closed = true) (codes : List (List Char)) (count index : Nat) :
    closeAttribute codes count index code = pure (index, Attribute.peel code) := by
  rw [closeAttribute, peel_eq solid, pure_bind, if_pos closed]

theorem closeAttribute_of_open {code : List Char} (solid : ∀ c ∈ code.head?, isBlank c = false)
    (unfinished : (Attribute.peel code).closed = false) (codes : List (List Char))
    (count index : Nat) :
    closeAttribute codes count index code =
      if count ≤ index + 1 then throw .openAttribute
      else Access.get codes (index + 1) >>= fun next =>
        closeAttribute codes count (index + 1) (code ++ ' ' :: trim next) := by
  rw [closeAttribute, peel_eq solid, pure_bind, if_neg (by simp [unfinished])]

/-- Closing an attribute is going on with the scan up to the line that closes it. -/
theorem closeAttribute_eq (cut : Line.ofTexts texts = above ++ line :: later ++ [])
    (fresh : state.skip = 0) (unclosed : Unclosed state) (nonempty : state.codeAt line ≠ [])
    (solid : ∀ c ∈ (state.codeAt line).head?, isBlank c = false) (path : String) :
    (closeAttribute (mask texts) texts.length above.length (state.codeAt line) =
        throw .openAttribute ∧
      (Outline.scanFrom path state (line :: later)).outcome =
        .error (.unfinished .openAttribute)) ∨
    ∃ upper last lower next,
      Reaches texts path above.length state (line :: later) upper last lower next ∧
      closeAttribute (mask texts) texts.length above.length (state.codeAt line) =
        pure (upper.length, Attribute.peel (next.codeAt last)) := by
  induction later generalizing above line state with
  | nil =>
      cases complete : (Attribute.peel (state.codeAt line)).closed with
      | true =>
          exact .inr ⟨_, _, _, _, .here cut fresh unclosed nonempty complete path,
            closeAttribute_of_closed solid complete ..⟩
      | false =>
          refine .inl ⟨?_, ?_⟩
          · rw [closeAttribute_of_open solid complete, length_eq_of_cut cut]
            exact if_pos (Nat.le_refl _)
          · rw [Outline.scanFrom_proceed fresh (step_of_open nonempty complete [])]
            rfl
  | cons below later ih =>
      cases complete : (Attribute.peel (state.codeAt line)).closed with
      | true =>
          exact .inr ⟨_, _, _, _, .here cut fresh unclosed nonempty complete path,
            closeAttribute_of_closed solid complete ..⟩
      | false =>
          -- The scan remembers the code so far as its open attribute, so both go on with it.
          have cut_below : Line.ofTexts texts = (above ++ [line]) ++ below :: later ++ [] := by
            simp [cut]
          have get_eq := get_code cut_below
          have fresh_below : { state with opened := some (state.codeAt line) }.skip = 0 := fresh
          have unclosed_below : Unclosed { state with opened := some (state.codeAt line) } := by
            rintro opened ⟨⟩
            exact complete
          have solid_below : ∀ c ∈ (state.codeAt line ++ ' ' :: trim below.code).head?,
              isBlank c = false := by
            rw [Pattern.head?_append_of_ne_nil nonempty]
            exact solid
          have reached := ih cut_below fresh_below unclosed_below (by simp [ScanState.codeAt])
            solid_below
          have longer : ¬texts.length ≤ above.length + 1 := by
            rw [length_eq_of_cut cut, List.length_cons]
            omega
          have onward_eq : Outline.scanFrom path state (line :: below :: later) = _ :=
            Outline.scanFrom_proceed fresh (step_of_open nonempty complete (below :: later))
          rw [List.length_append, List.length_singleton] at get_eq reached
          rw [closeAttribute_of_open solid complete, if_neg longer, get_eq, pure_bind, onward_eq]
          rcases reached with failed | ⟨upper, last, lower, next, reached, close_eq⟩
          · exact .inl failed
          · exact .inr ⟨upper, last, lower, next, { reached with
              below := Nat.le_of_succ_le reached.below
              scan_eq := onward_eq.trans reached.scan_eq }, close_eq⟩

end Attributes

/-! ## The scan -/

/-- Read the block whose header is the code `item` at a column of the line with the given index, if
the attributes `markers` mark it; also the index of its last line. -/
def readMarkedBlock (texts codes : List (List Char)) (index column : Nat)
    (markers : List (List Char)) (item : List Char) :
    Access (Option ((Struct ⊕ ImplBlock) × Nat)) :=
  if markers.contains Outline.implMarker && ImplBlock.header.isHeadOf item then do
    let (block, last) ← readImpl texts codes index column
    return some (.inr block, last)
  else return none

/-- Read the declaration whose header is the code `item` behind the attributes `markers` on the line
with the given index, if it is marked; also the index of its last line. -/
def readItem (texts codes : List (List Char)) (index : Nat) (markers : List (List Char))
    (item : List Char) : Access (Option ((Struct ⊕ ImplBlock) × Nat)) := do
  let column := columnOf (← Access.get codes index) item
  match Outline.typeMarkers.any markers.contains, Struct.header.match? item with
  | true, some found =>
    let (struct, last) ←
      readStruct texts codes index (column + found.stop.offset) found.captured
    return some (.inl struct, last)
  | _, _ => readMarkedBlock texts codes index column markers item

/-- Scan the lines from the one with the index `index` on, in so many rounds at most: the attributes
in front of the next item are `markers`, and `depth` braces are open. -/
def scan (texts codes : List (List Char)) (path : String) :
    Nat → Nat → List (List Char) → Nat → Access (List Struct × List ImplBlock)
  | 0, index, _, depth =>
    if index < texts.length then liftM none
    else if depth > 0 then throw (.openBraces depth path)
    else pure ([], [])
  | rounds + 1, index, markers, depth =>
    if index < texts.length then do
      let code := trim (← Access.get codes index)
      if code.isEmpty then scan texts codes path rounds (index + 1) markers depth
      else
        let (index, peeled) ← closeAttribute codes texts.length index code
        let markers := markers ++ peeled.names
        if peeled.rest.isEmpty then scan texts codes path rounds (index + 1) markers depth
        else
          match ← readItem texts codes index markers peeled.rest with
          | some (.inl struct, last) =>
            let (structs, blocks) ← scan texts codes path rounds (last + 1) [] depth
            return (struct :: structs, blocks)
          | some (.inr block, last) =>
            let (structs, blocks) ← scan texts codes path rounds (last + 1) [] depth
            return (structs, block :: blocks)
          | none =>
            let depth := ImplBlock.depthAfter depth peeled.rest
            scan texts codes path rounds (index + 1) [] depth
    else if depth > 0 then throw (.openBraces depth path)
    else pure ([], [])

/-- The declaration that a step of a scan reads on the line with the given index, and the index of
its last line. -/
def itemOf (index : Nat) : ScanStep → Except Fault (Option ((Struct ⊕ ImplBlock) × Nat))
  | .proceed _ => .ok none
  | .stop fault => .error fault
  | .struct struct last => .ok (some (.inl struct, index + last))
  | .block block last => .ok (some (.inr block, index + last))

theorem le_of_itemOf {index last : Nat} {step : ScanStep} {found : Struct ⊕ ImplBlock}
    (read : itemOf index step = .ok (some (found, last))) : index ≤ last := by
  cases step with
  | proceed next => cases read
  | stop fault => cases read
  | struct struct lines =>
      cases read
      exact Nat.le_add_right index lines
  | block block lines =>
      cases read
      exact Nat.le_add_right index lines

section Scanning

variable {texts : List (List Char)} {above later : List Line} {line : Line} {state : ScanState}

theorem readMarkedBlock_agrees {item : List Char} (feedless : ∀ text ∈ texts, '\n' ∉ text)
    (cut : Line.ofTexts texts = above ++ line :: later ++ []) (next : ScanState)
    (markers : List (List Char)) :
    (readMarkedBlock texts (mask texts) above.length (columnOf line.code item) markers
        item).Agrees
      (itemOf above.length
        (if markers.contains Outline.implMarker && ImplBlock.header.isHeadOf item then
          match ImplBlock.read item line later with
          | .error fault => .stop fault
          | .ok (block, last) => .block block last
        else .proceed next)) := by
  rw [readMarkedBlock]
  split
  next =>
    have read := (readImpl_agrees feedless cut item).map fun found =>
      some ((.inr found.1 : Struct ⊕ ImplBlock), found.2)
    refine read.trans ?_
    cases ImplBlock.read item line later <;> rfl
  next => exact Access.agrees_of (.ok none)

/-- What is read at an item by index is what a step of the scan reads there. -/
theorem readItem_agrees {item : List Char} (feedless : ∀ text ∈ texts, '\n' ∉ text)
    (cut : Line.ofTexts texts = above ++ line :: later ++ []) (behind : item <:+ trim line.code)
    (state : ScanState) (markers : List (List Char)) :
    (readItem texts (mask texts) above.length markers item).Agrees
      (itemOf above.length (Outline.atItem state markers item line later)) := by
  rw [readItem, get_code cut, pure_bind]
  unfold Outline.atItem
  dsimp only
  cases marked : Outline.typeMarkers.any markers.contains with
  | false => exact readMarkedBlock_agrees feedless cut _ markers
  | true =>
      cases matched : Struct.header.match? item with
      | none => exact readMarkedBlock_agrees feedless cut _ markers
      | some found =>
          have read := readStruct_eq feedless cut behind matched
          dsimp only
          rw [read]
          cases Struct.read (line.codeFrom item) found line later <;> exact Access.agrees_of _

/-- A scan that has come to the end of the source has an outcome. -/
theorem scan_done {texts codes : List (List Char)} {index : Nat} (done : texts.length ≤ index)
    (path : String) (rounds : Nat) (markers : List (List Char)) (depth : Nat) :
    (scan texts codes path rounds index markers depth).Agrees
      (Outline.atEnd path ⟨0, none, markers, depth⟩).outcome := by
  have scan_eq : scan texts codes path rounds index markers depth =
      if depth > 0 then throw (.openBraces depth path) else pure ([], []) := by
    cases rounds <;> rw [scan, if_neg (Nat.not_lt.mpr done)]
  rw [scan_eq]
  cases depth with
  | zero => exact Access.agrees_of (.ok ([], []))
  | succ depth => exact Access.agrees_of (.error (.openBraces (depth + 1) path))

theorem drop_of_cut (cut : Line.ofTexts texts = above ++ line :: later ++ []) (last : Nat) :
    (Line.ofTexts texts).drop (above.length + last + 1) = later.drop last := by
  rw [cut, List.append_nil, Nat.add_assoc, List.drop_append, List.drop_eq_nil_of_le (by omega),
    Nat.add_sub_cancel_left, List.drop_succ_cons, List.nil_append]

theorem drop_eq_nil_iff {index : Nat} :
    (Line.ofTexts texts).drop index = [] ↔ texts.length ≤ index := by
  have length_eq := congrArg List.length (Line.map_raw_ofTexts texts)
  rw [List.length_map] at length_eq
  rw [List.drop_eq_nil_iff, length_eq]

/-- How a scan goes on behind what it has read on the line with the given index, where the code
`item` stands behind the attributes. -/
def afterItem (texts : List (List Char)) (path : String) (index : Nat) (item : List Char)
    (depth : Nat) :
    Option ((Struct ⊕ ImplBlock) × Nat) → Except Fault (List Struct × List ImplBlock)
  | some (.inl struct, last) => do
    let (structs, blocks) ← (Outline.scanFrom path ⟨0, none, [], depth⟩
      ((Line.ofTexts texts).drop (last + 1))).outcome
    return (struct :: structs, blocks)
  | some (.inr block, last) => do
    let (structs, blocks) ← (Outline.scanFrom path ⟨0, none, [], depth⟩
      ((Line.ofTexts texts).drop (last + 1))).outcome
    return (structs, block :: blocks)
  | none =>
    (Outline.scanFrom path ⟨0, none, [], ImplBlock.depthAfter depth item⟩
      ((Line.ofTexts texts).drop (index + 1))).outcome

/-- A scan that comes to an item reads it and goes on behind it. -/
theorem outcome_scanFrom_item {markers : List (List Char)} {item : List Char}
    (cut : Line.ofTexts texts = above ++ line :: later ++ []) (fresh : state.skip = 0)
    (step_eq : Outline.step state line later = Outline.atItem state markers item line later)
    (path : String) :
    (Outline.scanFrom path state (line :: later)).outcome =
      itemOf above.length (Outline.atItem state markers item line later) >>=
        afterItem texts path above.length item state.depth := by
  cases made : Outline.atItem state markers item line later with
  | proceed next =>
      rw [Outline.scanFrom_proceed fresh (step_eq.trans made), Outline.atItem_proceed made, fresh,
        ← List.drop_zero (l := later), ← drop_of_cut cut 0]
      rfl
  | stop fault =>
      rw [Outline.scanFrom_stop fresh (step_eq.trans made)]
      rfl
  | struct struct last =>
      rw [Outline.scanFrom_struct fresh (step_eq.trans made), Outline.outcome_addStruct,
        Outline.scanFrom_drop]
      change _ = (Outline.scanFrom path ⟨0, none, [], state.depth⟩
        ((Line.ofTexts texts).drop (above.length + last + 1))).outcome >>= _
      rw [drop_of_cut cut]
      rfl
  | block block last =>
      rw [Outline.scanFrom_block fresh (step_eq.trans made), Outline.outcome_addBlock,
        Outline.scanFrom_drop]
      change _ = (Outline.scanFrom path ⟨0, none, [], state.depth⟩
        ((Line.ofTexts texts).drop (above.length + last + 1))).outcome >>= _
      rw [drop_of_cut cut]
      rfl

/-- The loop over the lines of a source scans them. -/
theorem scan_agrees (feedless : ∀ text ∈ texts, '\n' ∉ text) {rounds index : Nat}
    (enough : texts.length ≤ rounds + index) (path : String) (markers : List (List Char))
    (depth : Nat) :
    (scan texts (mask texts) path rounds index markers depth).Agrees
      (Outline.scanFrom path ⟨0, none, markers, depth⟩
        ((Line.ofTexts texts).drop index)).outcome := by
  -- Each round leaves at least one line behind, so there are rounds enough for the lines below.
  induction rounds generalizing index markers depth with
  | zero =>
      rw [Nat.zero_add] at enough
      rw [drop_eq_nil_iff.mpr enough]
      exact scan_done enough path 0 markers depth
  | succ rounds ih =>
      cases dropped : (Line.ofTexts texts).drop index with
      | nil =>
          exact scan_done (drop_eq_nil_iff.mp dropped) path (rounds + 1) markers depth
      | cons line later =>
          obtain ⟨above, rfl, cut⟩ := exists_cut dropped
          have count_eq := length_eq_of_cut cut
          rw [scan, if_pos (by omega), get_code cut, pure_bind]
          dsimp only
          split
          next blank =>
            have step_eq : Outline.step ⟨0, none, markers, depth⟩ line later =
                .proceed ⟨0, none, markers, depth⟩ := by
              rw [Outline.step]
              exact if_pos blank
            rw [Outline.scanFrom_proceed rfl step_eq, ← List.drop_zero (l := later),
              ← drop_of_cut cut 0]
            exact ih (by omega) markers depth
          next nonempty =>
            rw [List.isEmpty_iff] at nonempty
            have fresh : ScanState.skip ⟨0, none, markers, depth⟩ = 0 := rfl
            have code_eq : ScanState.codeAt ⟨0, none, markers, depth⟩ line = trim line.code := rfl
            rw [← code_eq]
            have unclosed : Unclosed ⟨0, none, markers, depth⟩ :=
              fun opened mem => absurd mem (Option.not_mem_none opened)
            rcases closeAttribute_eq cut fresh unclosed nonempty (solid_trim line.code) path with
              ⟨close_eq, failed⟩ | ⟨upper, last, lower, next, reached, close_eq⟩
            · rw [close_eq, failed]
              exact Access.agrees_of (.error .openAttribute)
            · have below := reached.below
              have markers_eq : next.markers = markers := reached.markers_eq
              have depth_eq : next.depth = depth := reached.depth_eq
              have step_eq := step_of_closed reached.nonempty reached.closed lower
              have behind := item_suffix_line reached.unclosed last
              rw [close_eq, pure_bind, reached.scan_eq]
              dsimp only
              rw [markers_eq] at step_eq
              split
              next bare =>
                rw [if_pos bare, reached.fresh, depth_eq] at step_eq
                rw [Outline.scanFrom_proceed reached.fresh step_eq, ← List.drop_zero (l := lower),
                  ← drop_of_cut reached.cut 0]
                exact ih (by omega) _ depth
              next item =>
                rw [if_neg item] at step_eq
                have read := readItem_agrees feedless reached.cut behind next
                  (markers ++ (Attribute.peel (next.codeAt last)).names)
                rw [outcome_scanFrom_item reached.cut reached.fresh step_eq path, depth_eq]
                refine read.andThen fun value read_eq => ?_
                rcases value with _ | ⟨struct | block, last⟩
                · exact ih (by omega) [] _
                · have onward := le_of_itemOf read_eq
                  exact (ih (by omega) [] depth).map _
                · have onward := le_of_itemOf read_eq
                  exact (ih (by omega) [] depth).map _

end Scanning

/-! ## The contract -/

/-- Recover the contract from a source and the name of its file. -/
def parse (source path : String) : Option (Except ParseError Contract) := do
  let texts := linesOf source
  let codes := mask texts
  match ← (scan texts codes path texts.length 0 [] 0).run with
  | .error fault =>
    if Contract.markedStruct.occursIn (joinLines codes) then
      return .error (.invalidStructure fault.message)
    else return .error (Contract.noMarker path)
  | .ok (structs, blocks) =>
    if structs.isEmpty then return .error (Contract.noMarker path)
    else
      let first ← structs[0]?
      return .ok ⟨first.name, structs, blocks, source, path⟩

/-- The contract that is recovered by index is the one that is recovered from the text, and a fault
is one of the source. -/
theorem parse_eq (source path : String) :
    parse source path = some (Contract.parse source path) ∧
      match Contract.parse source path with
      | .ok contract => ∃ first rest, contract.types = first :: rest ∧ contract.name = first.name
      | .error (.missingMarker _) => True
      | .error (.invalidStructure _) => True
      | .error _ => False := by
  have feedless : ∀ text ∈ linesOf source, '\n' ∉ text :=
    fun text mem => (oneLine_of_mem_splitLines mem).feedless
  have agrees := scan_agrees feedless (Nat.le_add_right (linesOf source).length 0) path [] 0
  obtain ⟨reached, run_eq, outcome_eq⟩ := Option.map_eq_some_iff.mp agrees
  rw [List.drop_zero, ← ScanState.initial, ← Outline.scan] at outcome_eq
  rw [parse, run_eq]
  unfold Contract.parse
  dsimp only
  rw [Line.map_code_ofTexts]
  cases reached with
  | error fault =>
      rw [Outline.fault_of_outcome outcome_eq.symm]
      dsimp only [bind, Option.bind]
      split <;> exact ⟨rfl, trivial⟩
  | ok found =>
      obtain ⟨structs, blocks⟩ := found
      rw [Outline.eq_of_outcome outcome_eq.symm]
      cases structs with
      | nil => exact ⟨rfl, trivial⟩
      | cons first rest => exact ⟨rfl, first, rest, rfl, rfl⟩

theorem isSome_parseFunction_iff (texts : List (List Char)) (index : Nat) (target : String) :
    (parseFunction texts index target).run.isSome ↔ index < texts.length := by
  have parsed := congrArg Option.isSome (parseFunction_eq texts index target)
  rw [Option.isSome_map] at parsed
  rw [parsed, ← Nat.not_le, ← drop_eq_nil_iff, Function.parse?]
  cases (Line.ofTexts texts).drop index with
  | nil => simp
  | cons first later =>
      dsimp only
      split <;> simp

/-- No index that the parser computes is out of range, no header that it has matched is lost when
it is matched once more, and no loop runs on.  So every source is parsed to a contract that bears
the name of its first struct, or to one of the two faults of sources; and a function is read from
every line that there is. -/
theorem parsers_in_range :
    (∀ source path, parse source path = some (Contract.parse source path) ∧
      match Contract.parse source path with
      | .ok contract => ∃ first rest, contract.types = first :: rest ∧ contract.name = first.name
      | .error (.missingMarker _) => True
      | .error (.invalidStructure _) => True
      | .error _ => False) ∧
    (∀ texts index target,
      (parseFunction texts index target).run.map (Except.mapError .unfinished) =
        Function.parse? texts index target ∧
      ((parseFunction texts index target).run.isSome ↔ index < texts.length)) ∧
    ∀ text, peel (trim text) = pure (Attribute.peel (trim text)) :=
  ⟨parse_eq,
    fun texts index target =>
      ⟨parseFunction_eq texts index target, isSome_parseFunction_iff texts index target⟩,
    fun text => peel_eq (solid_trim text)⟩

end Indexed
end SorobanLint
