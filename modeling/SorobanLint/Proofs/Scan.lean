import SorobanLint.Proofs.Layout

/-!
# The steps of a scan

What one step of a scan can do, and from it what a whole scan finds: declarations that stand one
below the other.  The recovered contract inherits their places (`Contract.laidOut_of_parse`).
-/

namespace SorobanLint

open Text

instance decidableEqExcept {ε α : Type} [DecidableEq ε] [DecidableEq α] :
    DecidableEq (Except ε α)
  | .ok a, .ok b => decidable_of_iff (a = b) ⟨congrArg Except.ok, Except.ok.inj⟩
  | .error a, .error b => decidable_of_iff (a = b) ⟨congrArg Except.error, Except.error.inj⟩
  | .ok _, .error _ => isFalse nofun
  | .error _, .ok _ => isFalse nofun

namespace Outline

variable {state next : ScanState} {line : Line} {later : List Line} {last : Nat}

theorem atItem_struct {markers : List (List Char)} {rest : List Char} {struct : Struct}
    (made : atItem state markers rest line later = .struct struct last) :
    typeMarkers.any markers.contains = true ∧ ∃ found, Struct.header.match? rest = some found ∧
      Struct.read (line.codeFrom rest) found line later = .ok (struct, last) := by
  unfold atItem at made
  split at made
  next found marked matched =>
    split at made
    · contradiction
    next read =>
      cases made
      exact ⟨marked, found, matched, read⟩
  next =>
    split at made
    next => split at made <;> contradiction
    next => contradiction

theorem atItem_block {markers : List (List Char)} {rest : List Char} {block : ImplBlock}
    (made : atItem state markers rest line later = .block block last) :
    implMarker ∈ markers ∧ ImplBlock.header.isHeadOf rest = true ∧
      ImplBlock.read rest line later = .ok (block, last) := by
  unfold atItem at made
  split at made
  next => split at made <;> contradiction
  next =>
    split at made
    next marked =>
      split at made
      · contradiction
      next read =>
        cases made
        simp only [Bool.and_eq_true, List.contains_iff_mem] at marked
        exact ⟨marked.1, marked.2, read⟩
    next => contradiction

theorem atItem_proceed {markers : List (List Char)} {rest : List Char}
    (made : atItem state markers rest line later = .proceed next) :
    next = { state with
      opened := none, markers := [], depth := ImplBlock.depthAfter state.depth rest } := by
  unfold atItem at made
  split at made
  next => split at made <;> contradiction
  next =>
    split at made
    next => split at made <;> contradiction
    next =>
      cases made
      rfl

/-- A struct is recorded where a header stands behind a marker. -/
theorem step_struct {struct : Struct} (made : step state line later = .struct struct last) :
    ∃ peeled, peeled = Attribute.peel (state.codeAt line) ∧ peeled.closed = true ∧
      typeMarkers.any (state.markers ++ peeled.names).contains = true ∧
      ∃ found, Struct.header.match? peeled.rest = some found ∧
        Struct.read (line.codeFrom peeled.rest) found line later = .ok (struct, last) := by
  simp only [step] at made
  refine ⟨_, rfl, ?_⟩
  split at made
  · contradiction
  · split at made
    · contradiction
    next closed =>
      split at made
      · contradiction
      · exact ⟨by simpa using closed, atItem_struct made⟩

/-- A block is recorded where a header stands behind a marker. -/
theorem step_block {block : ImplBlock} (made : step state line later = .block block last) :
    ∃ peeled, peeled = Attribute.peel (state.codeAt line) ∧ peeled.closed = true ∧
      implMarker ∈ state.markers ++ peeled.names ∧
      ImplBlock.header.isHeadOf peeled.rest = true ∧
      ImplBlock.read peeled.rest line later = .ok (block, last) := by
  simp only [step] at made
  refine ⟨_, rfl, ?_⟩
  split at made
  · contradiction
  · split at made
    · contradiction
    next closed =>
      split at made
      · contradiction
      · exact ⟨by simpa using closed, atItem_block made⟩

/-- No line is skipped unless a declaration ends below it. -/
theorem step_skip (made : step state line later = .proceed next) : next.skip = state.skip := by
  simp only [step] at made
  split at made
  · cases made
    rfl
  · split at made
    · cases made
      rfl
    · split at made
      · cases made
        rfl
      · rw [atItem_proceed made]

/-! ## Places -/

/-- The declarations of an outline stand in the source below the given line, each in its place. -/
structure LaidOut (texts : List (List Char)) (line : Int) (outline : Outline) : Prop where
  structs_laidOut : ∀ struct ∈ outline.structs, struct.LaidOut texts
  impls_laidOut : ∀ block ∈ outline.impls, block.LaidOut texts
  structs_below : ∀ struct ∈ outline.structs, line < struct.extent.first
  impls_below : ∀ block ∈ outline.impls, line < block.extent.first
  structs_ordered : outline.structs.Pairwise fun a b => a.extent.Before b.extent
  impls_ordered : outline.impls.Pairwise fun a b => a.extent.Before b.extent
  apart : ∀ struct ∈ outline.structs, ∀ block ∈ outline.impls,
    struct.extent.Disjoint block.extent

namespace LaidOut

variable {texts : List (List Char)} {upper lower : Int} {outline : Outline}

theorem empty (fault : Option Fault) : LaidOut texts upper ⟨[], [], fault⟩ := by
  constructor <;> simp

theorem mono (laid : LaidOut texts lower outline) (above : upper ≤ lower) :
    LaidOut texts upper outline :=
  { laid with
    structs_below := fun struct mem => Int.lt_of_le_of_lt above (laid.structs_below struct mem)
    impls_below := fun block mem => Int.lt_of_le_of_lt above (laid.impls_below block mem) }

theorem addStruct {struct : Struct} (laid : LaidOut texts struct.extent.last outline)
    (struct_laid : struct.LaidOut texts) (below : upper < struct.extent.first) :
    LaidOut texts upper (outline.addStruct struct) := by
  have upper_le : upper ≤ struct.extent.last :=
    Int.le_trans (Int.le_of_lt below) struct_laid.occupies.first_le_last
  have laid_upper := laid.mono upper_le
  exact {
    structs_laidOut := List.forall_mem_cons.mpr ⟨struct_laid, laid.structs_laidOut⟩
    impls_laidOut := laid.impls_laidOut
    structs_below := List.forall_mem_cons.mpr ⟨below, laid_upper.structs_below⟩
    impls_below := laid_upper.impls_below
    structs_ordered := List.pairwise_cons.mpr ⟨laid.structs_below, laid.structs_ordered⟩
    impls_ordered := laid.impls_ordered
    apart := List.forall_mem_cons.mpr
      ⟨fun block mem => Or.inl (laid.impls_below block mem), laid.apart⟩ }

theorem addBlock {block : ImplBlock} (laid : LaidOut texts block.extent.last outline)
    (block_laid : block.LaidOut texts) (below : upper < block.extent.first) :
    LaidOut texts upper (outline.addBlock block) := by
  have upper_le : upper ≤ block.extent.last :=
    Int.le_trans (Int.le_of_lt below) block_laid.occupies.first_le_last
  have laid_upper := laid.mono upper_le
  exact {
    structs_laidOut := laid.structs_laidOut
    impls_laidOut := List.forall_mem_cons.mpr ⟨block_laid, laid.impls_laidOut⟩
    structs_below := laid_upper.structs_below
    impls_below := List.forall_mem_cons.mpr ⟨below, laid_upper.impls_below⟩
    structs_ordered := laid.structs_ordered
    impls_ordered := List.pairwise_cons.mpr ⟨laid.impls_below, laid.impls_ordered⟩
    apart := fun struct mem => List.forall_mem_cons.mpr
      ⟨Or.inr (laid.structs_below struct mem), laid.apart struct mem⟩ }

end LaidOut

/-- Whatever a scan has found when it stops stands in the source below the lines it skips. -/
theorem laidOut_scanFrom {texts : List (List Char)} {index : Nat} {lines : List Line}
    (excerpt : Excerpt texts index lines) (path : String) (state : ScanState) :
    LaidOut texts (index + state.skip) (scanFrom path state lines) := by
  fun_induction scanFrom path state lines generalizing index with
  | case1 state => exact LaidOut.empty _
  | case2 state line later skip skip_eq ih =>
      have below := ih excerpt.tail
      rw [skip_eq]
      exact below.mono (by push_cast; omega)
  | case3 state line later skip_eq next step_eq ih =>
      have below := ih excerpt.tail
      rw [step_skip step_eq, skip_eq] at below
      rw [skip_eq]
      exact below.mono (by push_cast; omega)
  | case4 state line later skip_eq fault step_eq => exact LaidOut.empty _
  | case5 state line later skip_eq struct last step_eq ih =>
      obtain ⟨peeled, -, -, -, found, -, read⟩ := step_struct step_eq
      obtain ⟨-, extent_eq, laid⟩ := Struct.laidOut_of_read excerpt read
      rw [skip_eq]
      refine LaidOut.addStruct ((ih excerpt.tail).mono ?_) laid ?_
      · rw [extent_eq]
        simp [ScanState.behind]
      · rw [extent_eq]
        dsimp only
        omega
  | case6 state line later skip_eq block last step_eq ih =>
      obtain ⟨peeled, -, -, -, -, read⟩ := step_block step_eq
      obtain ⟨extent_eq, laid⟩ := ImplBlock.laidOut_of_read excerpt read
      rw [skip_eq]
      refine LaidOut.addBlock ((ih excerpt.tail).mono ?_) laid ?_
      · rw [extent_eq]
        simp [ScanState.behind]
      · rw [extent_eq]
        dsimp only
        omega

end Outline

/-! ## Contracts -/

namespace Contract

variable {source path : String} {contract : Contract}

/-- A recovered contract is what a scan finds that reaches the end of the source. -/
theorem parse_eq_ok (parsed : parse source path = .ok contract) :
    ∃ outline first rest, outline = Outline.scan path (Line.ofTexts (linesOf source)) ∧
      outline.fault = none ∧ outline.structs = first :: rest ∧
      contract = ⟨first.name, outline.structs, outline.impls, source, path⟩ := by
  simp only [parse] at parsed
  refine ⟨Outline.scan path (Line.ofTexts (linesOf source)), ?_⟩
  split at parsed
  · contradiction
  · split at parsed <;> contradiction
  next complete =>
    split at parsed
    · contradiction
    next first rest found =>
      obtain rfl := Except.ok.inj parsed
      exact ⟨first, rest, rfl, complete, found, rfl⟩

theorem source_of_parse (parsed : parse source path = .ok contract) : contract.source = source := by
  obtain ⟨outline, first, rest, -, -, -, contract_eq⟩ := parse_eq_ok parsed
  rw [contract_eq]

/-- What a scan finds stands in its place in the source. -/
theorem laidOut_scan (name source path : String) :
    let outline := Outline.scan path (Line.ofTexts (linesOf source))
    (⟨name, outline.structs, outline.impls, source, path⟩ : Contract).LaidOut (linesOf source) := by
  intro outline
  have feedless : ∀ text ∈ linesOf source, '\n' ∉ text :=
    fun text mem => (oneLine_of_mem_splitLines mem).feedless
  have laid := Outline.laidOut_scanFrom (Excerpt.ofTexts feedless) path .initial
  exact {
    types_laidOut := laid.structs_laidOut
    impls_laidOut := laid.impls_laidOut
    types_ordered := laid.structs_ordered
    impls_ordered := laid.impls_ordered
    apart := laid.apart
    functions_ordered := by
      refine List.pairwise_flatMap.mpr
        ⟨fun block mem => (laid.impls_laidOut block mem).functions_ordered, ?_⟩
      refine laid.impls_ordered.imp_of_mem ?_
      intro upper lower upper_mem lower_mem before function mem other other_mem
      have ends := ((laid.impls_laidOut upper upper_mem).functions_below function mem).2
      have begins := ((laid.impls_laidOut lower lower_mem).functions_below other other_mem).1
      exact Int.lt_of_le_of_lt ends (Int.lt_trans before begins)
    fields_ordered := by
      refine List.pairwise_flatMap.mpr
        ⟨fun struct mem => (laid.structs_laidOut struct mem).fields_ordered, ?_⟩
      refine laid.structs_ordered.imp_of_mem ?_
      intro upper lower upper_mem lower_mem before field mem other other_mem
      have ends := ((laid.structs_laidOut upper upper_mem).fields_inside field mem).2
      have begins := ((laid.structs_laidOut lower lower_mem).fields_inside other other_mem).1
      exact Int.le_trans ends (Int.le_trans (Int.le_of_lt before) begins) }

/-- Every struct, block, function and field of a recovered contract stands in its place in the
source: each occupies its own lines, apart from all others, and inside what it belongs to. -/
theorem laidOut_of_parse (parsed : parse source path = .ok contract) :
    contract.LaidOut (linesOf source) := by
  obtain ⟨outline, first, rest, rfl, -, -, rfl⟩ := parse_eq_ok parsed
  exact laidOut_scan first.name source path

/-- A struct with a field on a line of its own, and a function whose signature spans two lines. -/
theorem laidOut_splitSignature :
    let struct := "struct A \x7b\n  x: u8,\n\x7d"
    let function := " fn f(\n  a: u8) \x7b\n \x7d"
    let block := "impl A \x7b\n" ++ function ++ "\n\x7d"
    let source := "#[contracttype]\n" ++ struct ++ "\n\n#[contractimpl]\n" ++ block ++ "\n"
    let contract : Contract := {
      name := "A"
      types := [⟨"A", [⟨"x", "u8", .priv, 3⟩], 2, struct⟩]
      impls := [⟨"A", [⟨"f", [⟨"a", "u8"⟩], none, .priv, false, 8, function⟩], 7, block⟩]
      source
      path := "a.rs" }
    parse source "a.rs" = .ok contract ∧ contract.LaidOut (linesOf source) := by
  intro struct function block source contract
  have parsed : parse source "a.rs" = .ok contract := by decide +kernel
  exact ⟨parsed, laidOut_of_parse parsed⟩

end Contract
end SorobanLint
