import SorobanLint.Proofs.Listing.Frame
import SorobanLint.Proofs.Listing.Passage

/-!
# The functions of a block

Functions are found line by line.  A line between those of a block's braces gives a function if it
begins with a header at brace depth one, outside the functions above it, and no other line does as
long as braces pair up where the block does not count them (`Contract.functions_listed_of_parse`).
A second function on a line is not found (`Contract.second_function_unlisted`).
-/

namespace SorobanLint

open Text

/-- The line begins, behind its attributes, with the header of a function of that name. -/
def Line.Begins (line : Line) (name : String) : Prop :=
  Function.header.isHeadOf line.item = true ∧
    ∃ found, Function.header.match? (line.codeFrom line.item) = some found ∧
      name = String.ofList found.captured

namespace ImplBlock

open SorobanLint.Bracket

namespace Frame

variable {texts : List (List Char)} {block : ImplBlock}

/-- A function item begins in front of the rest of the body: at depth one, behind the opening brace,
the end of a block or a semicolon, with a header that has the name. -/
structure Item (frame : Frame texts block) (front rest : List Char) (name : String) : Prop where
  body_eq : frame.body = front ++ rest
  level : depthAfter 0 front = 0
  behind : ∀ c ∈ (trimEnd front).getLast?, c = '}' ∨ c = ';'
  header : ∃ found, Function.header.match? rest = some found ∧ name = String.ofList found.captured

/-- The functions are those whose headers begin lines of the body at depth one. -/
structure Lists (frame : Frame texts block) (functions : List Function) : Prop where
  /-- The functions stand one below the other. -/
  ordered : functions.Pairwise fun a b => a.extent.Before b.extent
  /-- A function begins a line. -/
  begins : ∀ function ∈ functions, ∃ front line, frame.Inner front line ∧
    function.line = line.number ∧ line.Begins function.name
  /-- A line at depth one that begins with a header outside the functions above it gives one
  function. -/
  listed : ∀ front line name, frame.Inner front line → line.Begins name → depthAfter 0 front = 0 →
    (∀ function ∈ functions, function.line < line.number → function.extent.last < line.number) →
    (functions.filter fun function => function.line = (line.number : Int)).map (·.name) = [name]
  /-- A function begins at depth one if the braces behind the opening one on its line, and those on
  the lines of each function above, pair up. -/
  level : ∀ front line, frame.Inner front line → ∀ function ∈ functions,
    function.line = line.number → Nested (front.takeWhile (· ≠ '\n')) →
    (∀ other ∈ functions, other.extent.Before function.extent →
      Nested (other.extent.slice (mask texts)).flatten) →
    depthAfter 0 front = 0

section Reading

variable {frame : Frame texts block} {front : List Char} {line : Line} {target : List Char}
  {functions : List Function}

theorem begins_of_read (feedless : ∀ text ∈ texts, '\n' ∉ text)
    (read : readFunctions target 0 0 frame.inside = .ok functions) {function : Function}
    (mem : function ∈ functions) :
    ∃ front line, frame.Inner front line ∧ function.line = line.number ∧
      line.Begins function.name := by
  obtain ⟨above, line, later, last, cut, nonempty, header, function_read⟩ :=
    exists_read_of_mem read mem
  obtain ⟨front, inner⟩ := exists_inner feedless cut nonempty
  obtain ⟨found, matched, found_read⟩ := Function.read_eq_ok function_read
  obtain ⟨signature, -, -, rfl⟩ := Function.readFound_eq_ok found_read
  exact ⟨front, line, inner, rfl, header, found, matched, rfl⟩

/-- At most one function begins on a line. -/
theorem filter_line_eq (ordered : functions.Pairwise fun a b => a.extent.Before b.extent)
    (upright : ∀ function ∈ functions, function.extent.first ≤ function.extent.last)
    {function : Function} (mem : function ∈ functions) :
    functions.filter (fun other => other.line = function.line) = [function] := by
  induction functions with
  | nil => contradiction
  | cons head others ih =>
      rw [List.pairwise_cons] at ordered
      rw [List.forall_mem_cons] at upright
      have apart : ∀ other ∈ others, head.line < other.line := fun other mem =>
        Int.lt_of_le_of_lt upright.1 (ordered.1 other mem)
      rcases List.mem_cons.mp mem with rfl | mem
      · rw [List.filter_cons_of_pos (by simp), List.cons_inj_right, List.filter_eq_nil_iff]
        intro other mem same
        have above := apart other mem
        simp at same
        omega
      · have above := apart function mem
        rw [List.filter_cons_of_neg (by simp; omega)]
        exact ih ordered.2 upright.2 mem

/-- How a block comes to a line between its braces. -/
theorem Inner.exists_passes (feedless : ∀ text ∈ texts, '\n' ∉ text)
    (inner : frame.Inner front line)
    (read : readFunctions target 0 0 frame.inside = .ok functions) :
    ∃ skip depth above upper back, functions = upper ++ back ∧
      Passes frame.opening 0 0 above skip depth upper ∧
      above.map (·.code) <+: (mask texts).drop frame.opening ∧
      line.number = frame.opening + above.length + 1 ∧
      ((∃ function ∈ back, function.line = line.number) ↔
        skip = 0 ∧ depth = 0 ∧ Function.header.isHeadOf line.item = true) ∧
      BracesFit (depthAfter 0 (front.takeWhile (· ≠ '\n'))) (above.map (·.code)).flatten ∧
      depthAfter 0 front =
        depthAfter (depthAfter 0 (front.takeWhile (· ≠ '\n'))) (above.map (·.code)).flatten := by
  obtain ⟨above, below, cut, nonempty, fit, depth_eq⟩ := inner.exists_above feedless
  have excerpt := frame.excerpt_inside feedless
  have leading : frame.inside.map (·.code) <+: (mask texts).drop frame.opening := by
    rw [← Line.map_code_ofTexts, ← List.map_drop]
    exact (List.take_prefix _ _).map _
  rw [cut] at excerpt read leading
  obtain ⟨skip, depth, upper, back, passes, onward, functions_eq⟩ :=
    ImplBlock.exists_passes excerpt read
  have there := excerpt.drop above.length
  rw [List.drop_left] at there
  exact ⟨skip, depth, above, upper, back, functions_eq, passes,
    ((List.prefix_append _ _).map _).trans leading, excerpt.number_eq_of_append,
    begins_iff there nonempty onward, fit, depth_eq⟩

/-- A line at depth one that begins with a header, outside the functions above it, gives a
function. -/
theorem exists_function_of_begins (feedless : ∀ text ∈ texts, '\n' ∉ text)
    (read : readFunctions target 0 0 frame.inside = .ok functions) {name : String}
    (inner : frame.Inner front line) (begins : line.Begins name) (level : depthAfter 0 front = 0)
    (apart : ∀ function ∈ functions, function.line < line.number →
      function.extent.last < line.number) :
    ∃ function ∈ functions, function.line = line.number ∧ function.name = name := by
  obtain ⟨skip, depth, above, upper, back, functions_eq, passes, -, number, begins_iff, fit,
    depth_eq⟩ := inner.exists_passes feedless read
  have counted := passes.depth_le (Nat.zero_le _) (fun _ => rfl) fit
  rw [← depth_eq, level, Nat.le_zero] at counted
  have ended : ∀ function ∈ upper, function.extent.last ≤ (frame.opening + above.length : Nat) := by
    intro function mem
    have begun := passes.line_le rfl function mem
    have last_lt := apart function (by simp [functions_eq, mem]) (by omega)
    omega
  have skip_eq := passes.skip_eq_zero rfl (Nat.zero_le _) ended
  obtain ⟨function, back_mem, line_eq⟩ := begins_iff.mpr ⟨skip_eq, counted, begins.1⟩
  have mem : function ∈ functions := by simp [functions_eq, back_mem]
  obtain ⟨_, other, other_inner, other_eq, -, found, matched, name_eq⟩ :=
    begins_of_read feedless read mem
  have same : other = line := by
    refine (Line.numbered_ofTexts feedless).eq_of_number_eq other_inner.mem inner.mem ?_
    exact_mod_cast other_eq.symm.trans line_eq
  subst same
  obtain ⟨-, first_found, first_matched, rfl⟩ := begins
  obtain rfl := Option.some.inj (first_matched.symm.trans matched)
  exact ⟨function, mem, line_eq, name_eq⟩

/-- A function begins at depth one if braces pair up where the block does not count them. -/
theorem depth_eq_zero_of_mem (feedless : ∀ text ∈ texts, '\n' ∉ text)
    (read : readFunctions target 0 0 frame.inside = .ok functions) {function : Function}
    (inner : frame.Inner front line) (mem : function ∈ functions)
    (line_eq : function.line = line.number) (opening_nested : Nested (front.takeWhile (· ≠ '\n')))
    (nested : ∀ other ∈ functions, other.extent.Before function.extent →
      Nested (other.extent.slice (mask texts)).flatten) :
    depthAfter 0 front = 0 := by
  obtain ⟨-, ordered⟩ := functions_laidOut (frame.excerpt_inside feedless) read
  obtain ⟨skip, depth, above, upper, back, rfl, passes, leading, number, begins_iff, fit,
    depth_eq⟩ := inner.exists_passes feedless read
  rw [opening_nested.depthAfter_eq] at fit depth_eq
  have back_mem : function ∈ back := by
    refine (List.mem_append.mp mem).resolve_left ?_
    intro upper_mem
    have begun := passes.line_le rfl function upper_mem
    omega
  have before : ∀ other ∈ upper, other.extent.Before function.extent := by
    intro other other_mem
    exact (List.pairwise_append.mp ordered).2.2 other other_mem function back_mem
  have ended : ∀ other ∈ upper, other.extent.last ≤ (frame.opening + above.length : Nat) := by
    intro other other_mem
    have above := before other other_mem
    change other.extent.last < function.line at above
    omega
  have upper_nested : ∀ other ∈ upper, Nested (other.extent.slice (mask texts)).flatten := by
    intro other other_mem
    exact nested other (List.mem_append_left back other_mem) (before other other_mem)
  have level := passes.depth_eq rfl (Nat.zero_le _) ended upper_nested leading fit
  rw [depth_eq]
  exact level.symm.trans (begins_iff.mp ⟨function, back_mem, line_eq⟩).2.1

theorem lists_of_read (feedless : ∀ text ∈ texts, '\n' ∉ text)
    (read : readFunctions target 0 0 frame.inside = .ok functions) : frame.Lists functions := by
  obtain ⟨placed, ordered⟩ := functions_laidOut (frame.excerpt_inside feedless) read
  refine ⟨ordered, fun function => begins_of_read feedless read, ?_, ?_⟩
  · intro front line name inner begins level apart
    obtain ⟨function, mem, line_eq, rfl⟩ :=
      exists_function_of_begins feedless read inner begins level apart
    have upright : ∀ other ∈ functions, other.extent.first ≤ other.extent.last :=
      fun other mem => (placed other mem).1.first_le_last
    rw [← line_eq, filter_line_eq ordered upright mem, List.map_singleton]
  · intro front line inner function mem line_eq opening_nested nested
    exact depth_eq_zero_of_mem feedless read inner mem line_eq opening_nested nested

end Reading

end Frame

end ImplBlock

/-! ## Contracts -/

namespace Contract

open ImplBlock SorobanLint.Bracket

variable {source path : String} {contract : Contract}

/-- The functions of a block are those whose headers begin its lines at brace depth one. -/
theorem functions_listed_of_parse (parsed : parse source path = .ok contract) {block : ImplBlock}
    (mem : block ∈ contract.impls) :
    ∃ frame : Frame (linesOf source) block, frame.Lists block.functions := by
  obtain ⟨outline, first, rest, rfl, -, -, rfl⟩ := parse_eq_ok parsed
  have feedless : ∀ text ∈ linesOf source, '\n' ∉ text :=
    fun text mem => (oneLine_of_mem_splitLines mem).feedless
  obtain ⟨above, header, later, item, last, cut, read⟩ := Outline.exists_read_of_mem_impls mem
  obtain ⟨frame, listed⟩ := exists_frame_of_read feedless cut read
  exact ⟨frame, frame.lists_of_read feedless listed⟩

/-- A function in the braces of a constant is passed over, one behind an attribute is not. -/
theorem functions_listed_of_parse_attribute :
    let f : Function := ⟨"f", [⟨"a", "u8"⟩], none, .pub, false, 8,
      "  #[inline] pub fn f(a: u8) \x7b\n  \x7d"⟩
    let g : Function := ⟨"g", [], none, .priv, false, 10, "  fn g();"⟩
    let definition := "impl A \x7b\n  const N: u8 = \x7b\n    fn n() \x7b \x7d\n  \x7d;\n" ++
      f.definition ++ "\n" ++ g.definition ++ "\n\x7d"
    let block : ImplBlock := ⟨"A", [f, g], 4, definition⟩
    let source := "#[contract]\nstruct A;\n#[contractimpl]\n" ++ definition ++ "\n"
    let contract : Contract := ⟨"A", [⟨"A", [], 2, "struct A;"⟩], [block], source, "a.rs"⟩
    parse source "a.rs" = .ok contract ∧ block ∈ contract.impls ∧
      ∃ frame : Frame (linesOf source) block, frame.Lists block.functions := by
  intro f g definition block source contract
  have parsed : parse source "a.rs" = .ok contract := by decide +kernel
  have mem : block ∈ contract.impls := List.mem_singleton.mpr rfl
  exact ⟨parsed, mem, functions_listed_of_parse parsed mem⟩

/-- A function behind the end of another one is not found. -/
theorem second_function_unlisted :
    let f : Function := ⟨"f", [], none, .priv, false, 5, "  fn f() \x7b \x7d fn g() \x7b \x7d"⟩
    let definition := "impl A \x7b\n" ++ f.definition ++ "\n\x7d"
    let block : ImplBlock := ⟨"A", [f], 4, definition⟩
    let source := "#[contracttype]\nstruct A \x7b \x7d\n#[contractimpl]\n" ++ definition ++ "\n"
    let contract : Contract := ⟨"A", [⟨"A", [], 2, "struct A \x7b \x7d"⟩], [block], source, "a.rs"⟩
    parse source "a.rs" = .ok contract ∧ block ∈ contract.impls ∧
      ∃ frame : Frame (linesOf source) block, ∃ front rest, frame.Item front rest "g" ∧
        ∀ function ∈ block.functions, function.name ≠ "g" := by
  intro f definition block source contract
  let front := "\n  fn f() \x7b \x7d ".toList
  let rest := "fn g() \x7b \x7d\n".toList
  let frame : Frame (linesOf source) block := {
    lead := "#[contracttype]\nstruct A \x7b \x7d\n#[contractimpl]\n".toList
    header := "impl A ".toList
    body := front ++ rest
    tail := []
    text_eq := by decide +kernel
    extent_eq := by decide +kernel
    target_eq := by decide +kernel
    opener := by decide +kernel
    nested := by decide +kernel }
  have matched : (Function.header.match? rest).map (String.ofList ·.captured) = some "g" := by
    decide +kernel
  obtain ⟨found, found_eq, name_eq⟩ := Option.map_eq_some_iff.mp matched
  have front_last : (trimEnd front).getLast? = some '}' := by decide +kernel
  have item : frame.Item front rest "g" :=
    ⟨rfl, by decide +kernel, by simp [front_last], found, found_eq, name_eq.symm⟩
  exact ⟨by decide +kernel, List.mem_singleton.mpr rfl, frame, front, rest, item, by decide +kernel⟩

end Contract
end SorobanLint
