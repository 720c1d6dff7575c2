import SorobanLint.Proofs.Scan

/-!
# Where recorded declarations come from

Whatever a scan records it has read from a line of its source: a block from the line of its header
(`Outline.exists_read_of_mem_impls`), a function from one of the lines between the braces of its
block (`Contract.exists_read_of_mem_functions`).
-/

namespace SorobanLint

open Text

/-! ## Runs of numbered lines -/

namespace Line

variable {texts : List (List Char)} {above lines below : List Line}

/-- A line and its masked text are equally long. -/
theorem length_code_of_mem {line : Line} (mem : line ∈ ofTexts texts) :
    line.code.length = line.raw.length := by
  have lengths : (ofTexts texts).map (·.code.length) = (ofTexts texts).map (·.raw.length) := by
    calc (ofTexts texts).map (·.code.length)
        = ((ofTexts texts).map (·.code)).map List.length := List.map_map.symm
      _ = texts.map List.length := by rw [map_code_ofTexts, length_mask]
      _ = ((ofTexts texts).map (·.raw)).map List.length := by rw [map_raw_ofTexts]
      _ = (ofTexts texts).map (·.raw.length) := List.map_map
  exact List.map_inj_left.mp lengths line mem

/-- The texts of a run of lines, with those above and below it. -/
theorem texts_eq_of_ofTexts (cut : ofTexts texts = above ++ lines ++ below) :
    texts = above.map (·.raw) ++ lines.map (·.raw) ++ below.map (·.raw) := by
  rw [← List.map_append, ← List.map_append, ← cut, map_raw_ofTexts]

theorem mask_eq_of_ofTexts (cut : ofTexts texts = above ++ lines ++ below) :
    mask texts = above.map (·.code) ++ lines.map (·.code) ++ below.map (·.code) := by
  rw [← List.map_append, ← List.map_append, ← cut, map_code_ofTexts]

end Line

namespace Excerpt

variable {texts : List (List Char)} {above lines below : List Line}

theorem of_cut (feedless : ∀ text ∈ texts, '\n' ∉ text)
    (cut : Line.ofTexts texts = above ++ lines) : Excerpt texts above.length lines := by
  have run := (Excerpt.ofTexts feedless).drop above.length
  rwa [cut, List.drop_left, Nat.zero_add] at run

theorem of_ofTexts (feedless : ∀ text ∈ texts, '\n' ∉ text)
    (cut : Line.ofTexts texts = above ++ lines ++ below) : Excerpt texts above.length lines := by
  rw [List.append_assoc] at cut
  have run := (of_cut feedless cut).take lines.length
  rwa [List.take_left] at run

end Excerpt

/-! ## Functions of a block -/

/-- Every function of a block was read from a line above the last one of the block. -/
theorem ImplBlock.exists_read_of_mem {target : List Char} {skip depth : Nat} {lines : List Line}
    {functions : List Function} {function : Function}
    (read : readFunctions target skip depth lines = .ok functions) (mem : function ∈ functions) :
    ∃ above line later last, lines = above ++ line :: later ∧ later ≠ [] ∧
      Function.header.isHeadOf line.item = true ∧
      Function.read target line.item line later = .ok (function, last) := by
  fun_induction readFunctions target skip depth lines generalizing functions with
  | case1 =>
      obtain rfl := Except.ok.inj read
      contradiction
  | case2 =>
      obtain rfl := Except.ok.inj read
      contradiction
  | case3 skip depth line next rest ih =>
      obtain ⟨above, origin, later, last, lines_eq, found⟩ := ih read mem
      exact ⟨line :: above, origin, later, last, by rw [lines_eq]; rfl, found⟩
  | case4 depth line next rest isHeader ih =>
      obtain ⟨⟨head, last⟩, head_read, read⟩ := bind_eq_ok_iff.mp read
      obtain ⟨others, others_read, result⟩ := bind_eq_ok_iff.mp read
      obtain rfl := Except.ok.inj result
      rcases List.mem_cons.mp mem with rfl | mem
      · rw [Bool.and_eq_true] at isHeader
        exact ⟨[], line, next :: rest, last, rfl, List.cons_ne_nil next rest, isHeader.2, head_read⟩
      · obtain ⟨above, origin, later, stop, lines_eq, found⟩ := ih last others_read mem
        exact ⟨line :: above, origin, later, stop, by rw [lines_eq]; rfl, found⟩
  | case5 depth line next rest notHeader ih =>
      obtain ⟨above, origin, later, last, lines_eq, found⟩ := ih read mem
      exact ⟨line :: above, origin, later, last, by rw [lines_eq]; rfl, found⟩

/-! ## Blocks of a scan -/

/-- Every block that a scan records was read from one of its lines. -/
theorem Outline.exists_read_of_mem_impls {path : String} {state : ScanState} {lines : List Line}
    {block : ImplBlock} (mem : block ∈ (scanFrom path state lines).impls) :
    ∃ above line later item last, lines = above ++ line :: later ∧
      ImplBlock.read item line later = .ok (block, last) := by
  fun_induction scanFrom path state lines with
  | case1 state => contradiction
  | case2 state line later skip skip_eq ih =>
      obtain ⟨above, origin, below, item, last, later_eq, read⟩ := ih mem
      exact ⟨line :: above, origin, below, item, last, by rw [later_eq]; rfl, read⟩
  | case3 state line later skip_eq next step_eq ih =>
      obtain ⟨above, origin, below, item, last, later_eq, read⟩ := ih mem
      exact ⟨line :: above, origin, below, item, last, by rw [later_eq]; rfl, read⟩
  | case4 state line later skip_eq fault step_eq => contradiction
  | case5 state line later skip_eq struct last step_eq ih =>
      obtain ⟨above, origin, below, item, stop, later_eq, read⟩ := ih mem
      exact ⟨line :: above, origin, below, item, stop, by rw [later_eq]; rfl, read⟩
  | case6 state line later skip_eq found last step_eq ih =>
      rcases List.mem_cons.mp mem with rfl | mem
      · obtain ⟨peeled, -, -, -, -, read⟩ := step_block step_eq
        exact ⟨[], line, later, peeled.rest, last, rfl, read⟩
      · obtain ⟨above, origin, below, item, stop, later_eq, read⟩ := ih mem
        exact ⟨line :: above, origin, below, item, stop, by rw [later_eq]; rfl, read⟩

namespace Contract

variable {source path : String} {contract : Contract}

/-- Every function of a recovered block was read for the block's target from lines of the source,
the first of which begins with its header. -/
theorem exists_read_of_mem_impls (parsed : parse source path = .ok contract) {block : ImplBlock}
    (block_mem : block ∈ contract.impls) {function : Function}
    (mem : function ∈ block.functions) :
    ∃ above line later below last,
      Line.ofTexts (linesOf source) = above ++ line :: later ++ below ∧
      Function.header.isHeadOf line.item = true ∧
      Function.read block.target.toList line.item line later = .ok (function, last) := by
  obtain ⟨outline, first, rest, rfl, -, -, rfl⟩ := parse_eq_ok parsed
  obtain ⟨above, header, later, item, last, lines_eq, block_read⟩ :=
    Outline.exists_read_of_mem_impls block_mem
  obtain ⟨before, after, inner, tail, functions, -, -, listed, -, rfl⟩ :=
    ImplBlock.read_eq_ok block_read
  obtain ⟨upper, line, lower, stop, inside_eq, -, found⟩ := ImplBlock.exists_read_of_mem listed mem
  dsimp only
  rw [String.toList_ofList]
  refine ⟨above ++ header :: later.take (lineFeeds before) ++ upper,
    line, lower, (later.drop (lineFeeds before)).drop (lineFeeds inner), stop, ?_, found⟩
  have later_eq := List.take_append_drop (lineFeeds before) later
  rw [← List.take_append_drop (lineFeeds inner) (later.drop (lineFeeds before)), inside_eq]
    at later_eq
  rw [lines_eq]
  nth_rewrite 1 [← later_eq]
  simp only [List.append_assoc, List.cons_append]

/-- Every function of a recovered contract was read from lines of its source, the first of which
begins with its header. -/
theorem exists_read_of_mem_functions (parsed : parse source path = .ok contract)
    {function : Function} (mem : function ∈ contract.functions) :
    ∃ target above line later below last,
      Line.ofTexts (linesOf source) = above ++ line :: later ++ below ∧
      Function.header.isHeadOf line.item = true ∧
      Function.read target line.item line later = .ok (function, last) := by
  obtain ⟨block, block_mem, mem⟩ := List.mem_flatMap.mp mem
  exact ⟨block.target.toList, exists_read_of_mem_impls parsed block_mem mem⟩

end Contract
end SorobanLint
