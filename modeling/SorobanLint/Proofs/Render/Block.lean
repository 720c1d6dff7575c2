import SorobanLint.Proofs.Render.Signature
import SorobanLint.Proofs.Render.Struct

/-!
# Rendered blocks

A contract type with one marked block is recovered from its rendering: the functions of the block
are those that were rendered, in order and on their lines (`Contract.parse_block`).
-/

namespace SorobanLint

open Text SorobanLint.Bracket

/-- A contract type without fields and its block, to be rendered. -/
structure BlockDecl where
  /-- The name of the type. -/
  name : Ident
  /-- The functions of the block in order. -/
  functions : List FunctionDecl
  name_not_where : name.text ≠ "where".toList

/-- The functions, in a block for the given type, the first of which begins on line `n`. -/
def FunctionDecl.models (target : Ident) : Nat → List FunctionDecl → List Function
  | _, [] => []
  | n, function :: functions =>
    function.model target n :: models target (n + function.lines.length) functions

namespace BlockDecl

variable (block : BlockDecl)

/-- The lines of the functions and the closing brace. -/
def body : List (List Char) :=
  block.functions.flatMap FunctionDecl.lines ++ ["\x7d".toList]

/-- The line of the struct. -/
def structLine : List Char := "pub struct ".toList ++ block.name.text ++ ' ' :: "\x7b \x7d".toList

/-- The block's header without its opening brace. -/
def title : List Char := "impl ".toList ++ block.name.text ++ [' ']

/-- The line of the block's header. -/
def header : List Char := block.title ++ ['{']

/-- The rendered lines. -/
def lines : List (List Char) :=
  "#[contracttype]".toList :: block.structLine :: "#[contractimpl]".toList :: block.header ::
    block.body

/-- The struct, whose header stands on the given line. -/
def structModel (line : Nat) : Struct where
  name := String.ofList block.name.text
  fields := []
  line := line
  definition := String.ofList block.structLine

/-- The block whose header stands on the given line. -/
def model (line : Nat) : ImplBlock where
  target := String.ofList block.name.text
  functions := FunctionDecl.models block.name (line + 1) block.functions
  line := line
  definition := String.ofList (joinLines (block.header :: block.body))

end BlockDecl

/-- The first character in `target` is found behind a text without such characters and without
angle brackets that open. -/
theorem Bracket.firstOutsideAngles?_append {target : Char → Bool} {s : List Char} {d : Char}
    (plain : ∀ c ∈ s, c ≠ '<' ∧ target c = false) (found : target d = true) (not_angle : d ≠ '<')
    (previous : Option Char) (rest : List Char) :
    firstOutsideAngles? target 0 previous (s ++ d :: rest) = some (s, d, rest) := by
  induction s generalizing previous with
  | nil => simp [firstOutsideAngles?, found, not_angle]
  | cons c s ih =>
      rw [List.forall_mem_cons] at plain
      obtain ⟨⟨no_angle, no_target⟩, later⟩ := plain
      simp [firstOutsideAngles?, no_angle, no_target, ih later]

/-! ## Functions of a block -/

namespace ImplBlock

variable {target : List Char} {line : Line} {later below : List Line}

/-- A function whose header begins a line is read, and then the lines below it. -/
theorem readFunctions_header {function : Function} {last : Nat} (more : later ≠ [])
    (is_head : Function.header.isHeadOf line.item = true)
    (read : Function.read target line.item line later = .ok (function, last)) :
    readFunctions target 0 0 (line :: later) =
      (readFunctions target last 0 later).map (function :: ·) := by
  obtain ⟨next, rest, rfl⟩ := List.exists_cons_of_ne_nil more
  rw [readFunctions, is_head, read]
  simp only [decide_true, Bool.and_self, if_true, bind, Except.bind]
  cases readFunctions target last 0 (next :: rest) with
  | error fault => rfl
  | ok functions => rfl

/-- The lines of a function that was read are skipped. -/
theorem readFunctions_skip (skipped : List Line) (more : below ≠ []) :
    readFunctions target skipped.length 0 (skipped ++ below) = readFunctions target 0 0 below := by
  induction skipped with
  | nil => rfl
  | cons line skipped ih =>
      obtain ⟨next, rest, whole⟩ := List.exists_cons_of_ne_nil
        (List.append_ne_nil_of_right_ne_nil skipped more)
      rw [List.cons_append, List.length_cons, whole, readFunctions, ← whole, ih]

end ImplBlock

namespace FunctionDecl

variable (function : FunctionDecl)

theorem item_header (n : Nat) :
    Line.item ⟨n, function.header, function.header⟩ = function.signature ++ ['{'] := by
  have no_attribute : (function.signature ++ ['{']).head? ≠ some '#' := by
    rw [signature_split]
    cases function.visibility with
    | pub => exact fun same => absurd (Option.some.inj same) (by decide)
    | priv => exact fun same => absurd (Option.some.inj same) (by decide)
  rw [Line.item, Attribute.behind, header, trim_append_blank (forall_mem_of_all rfl),
    function.header_spaced.trim_eq, Attribute.peel_code function.header_spaced no_attribute]

/-- A rendered function is read first, and then the lines below it. -/
theorem readFunctions_lines (target : Ident) (n : Nat) {below : List (List Char)}
    (more : below ≠ []) :
    ImplBlock.readFunctions target.text 0 0 (Line.plain n (function.lines ++ below)) =
      (ImplBlock.readFunctions target.text 0 0
        (Line.plain (n + function.lines.length) below)).map (function.model target n :: ·) := by
  obtain ⟨found, matched, -⟩ := function.header_match?
  let first : Line := ⟨n, function.header, function.header⟩
  let own := Line.plain (n + 1) (function.body ++ ["    \x7d".toList])
  let rest := Line.plain (n + function.lines.length) below
  have is_head : Function.header.isHeadOf first.item = true := by
    rw [item_header, Pattern.isHeadOf, matched]
    rfl
  have later_eq : Line.plain (n + 1) (function.body ++ "    \x7d".toList :: below) =
      own ++ rest := by
    have next_eq : n + 1 + (function.body ++ ["    \x7d".toList]).length =
        n + function.lines.length := by
      rw [lines, List.length_cons]
      omega
    rw [List.append_cons, Line.plain_append, next_eq]
  have lines_eq : Line.plain n (function.lines ++ below) = first :: (own ++ rest) := by
    rw [← later_eq, ← Line.plain_cons, List.append_cons]
    rfl
  have read : Function.read target.text first.item first (own ++ rest) =
      .ok (function.model target n, own.length) := by
    rw [item_header, ← later_eq, read_eq, Line.length_plain, List.length_append]
    rfl
  have rest_more : rest ≠ [] := by
    obtain ⟨next, others, rfl⟩ := List.exists_cons_of_ne_nil more
    exact List.cons_ne_nil _ _
  rw [lines_eq, ImplBlock.readFunctions_header (List.append_ne_nil_of_right_ne_nil own rest_more)
    is_head read, ImplBlock.readFunctions_skip own rest_more]

/-- Rendered functions are read in order; the line below them closes the block. -/
theorem readFunctions_flatMap_lines (target : Ident) (n : Nat) (functions : List FunctionDecl)
    (closing : List Char) :
    ImplBlock.readFunctions target.text 0 0
        (Line.plain n (functions.flatMap lines ++ [closing])) =
      .ok (models target n functions) := by
  -- The closing line alone ends the recursion, so no function is ever read from it.
  induction functions generalizing n with
  | nil => rfl
  | cons function functions ih =>
      have more : functions.flatMap lines ++ [closing] ≠ [] := List.concat_ne_nil _ _
      rw [List.flatMap_cons, List.append_assoc, readFunctions_lines function target n more, ih]
      rfl

end FunctionDecl

/-! ## Blocks -/

namespace FunctionDecl

variable (function : FunctionDecl)

theorem isPlain_of_mem : ∀ line ∈ function.lines, ∀ c ∈ line, isPlain c = true := by
  have in_signature : ∀ c ∈ function.signature, isPlain c = true :=
    fun c mem => isPlain_of_isTypeChar (function.isTypeChar_of_mem c mem)
  have in_header : ∀ c ∈ function.header, isPlain c = true := by
    simp only [header, List.forall_mem_append]
    exact ⟨forall_mem_of_all rfl, in_signature, forall_mem_of_all rfl⟩
  simp only [lines, List.forall_mem_cons, List.forall_mem_append]
  exact ⟨in_header, function.body_plain, forall_mem_of_all rfl, List.forall_mem_nil _⟩

theorem lines_nested : Nested function.lines.flatten := by
  have indent : Nested "    ".toList := .of_braceless (by decide) (by decide)
  have front := indent.append (Nested.of_isTypeChar function.isTypeChar_of_mem)
  have whole := front.append (function.body_nested.append indent).braces
  simpa [lines, header] using whole

theorem flatMap_lines_nested (functions : List FunctionDecl) :
    Nested (functions.flatMap lines).flatten := by
  induction functions with
  | nil => exact .of_braceless List.not_mem_nil List.not_mem_nil
  | cons function functions ih =>
      rw [List.flatMap_cons, List.flatten_append]
      exact function.lines_nested.append ih

end FunctionDecl

namespace BlockDecl

variable (block : BlockDecl)

/-- The text between the braces of the block. -/
def inner : List Char := between (block.functions.flatMap FunctionDecl.lines)

theorem inner_nested : Nested block.inner :=
  (FunctionDecl.flatMap_lines_nested block.functions).between_lines

theorem lineFeeds_inner : lineFeeds block.inner = block.body.length := by
  have feedless : ∀ line ∈ block.functions.flatMap FunctionDecl.lines, '\n' ∉ line := by
    intro line mem
    obtain ⟨function, -, mem⟩ := List.mem_flatMap.mp mem
    exact (oneLine_of_plain (function.isPlain_of_mem line mem)).feedless
  rw [inner, lineFeeds_between feedless, body, List.length_append]
  rfl

theorem header_spaced : Spaced block.header := by
  have named : Spaced ("impl".toList ++ ' ' :: block.name.text) :=
    Spaced.append_space (.of_word rfl) block.name.spaced
  have whole := named.append_space (.single (c := '{') (by decide))
  unfold header title
  rw [List.append_assoc]
  exact whole

theorem ne_of_mem_title {c d : Char} (mem : c ∈ block.title) (outside : isIdentRest d = false)
    (no_space : ' ' ≠ d) : c ≠ d := by
  have chars : ∀ c ∈ block.title, isIdentRest c = true ∨ c = ' ' := by
    unfold title
    rw [List.forall_mem_append, List.forall_mem_append]
    exact ⟨⟨forall_mem_of_all rfl, fun c mem => .inl (block.name.isIdentRest_of_mem c mem)⟩,
      forall_mem_of_all rfl⟩
  rcases chars c mem with inside | rfl
  · exact ne_of_isIdentRest inside outside
  · exact no_space

/-- The block opens behind its title. -/
theorem firstOutsideAngles?_title (after : List Char) :
    firstOutsideAngles? (fun c => c = '{' || c = ';') 0 none (block.title ++ '{' :: after) =
      some (block.title, '{', after) := by
  refine firstOutsideAngles?_append ?_ rfl (by decide) none after
  intro c mem
  have no_brace : c ≠ '{' := block.ne_of_mem_title mem (by decide) (by decide)
  have no_semicolon : c ≠ ';' := block.ne_of_mem_title mem (by decide) (by decide)
  exact ⟨block.ne_of_mem_title mem (by decide) (by decide), by simp [no_brace, no_semicolon]⟩

/-- A rendered block is read as it was, up to its closing brace. -/
theorem read_eq (n : Nat) :
    ImplBlock.read block.header ⟨n, block.header, block.header⟩ (Line.plain (n + 1) block.body) =
      .ok (block.model n, block.body.length) := by
  have code_eq : Line.codeFrom ⟨n, block.header, block.header⟩ block.header = block.header :=
    Line.codeFrom_eq block.header_spaced
  have text_eq : Line.codeText block.header (Line.plain (n + 1) block.body) =
      block.title ++ '{' :: (block.inner ++ '}' :: []) := by
    rw [Line.codeText, Line.map_code_plain, body, joinLines_between, header, List.append_assoc]
    rfl
  have same_line : lineFeeds block.title = 0 :=
    lineFeeds_eq_zero fun mem => block.ne_of_mem_title mem (by decide) (by decide) rfl
  have target_eq : ImplBlock.targetOf block.title = block.name.text :=
    ImplBlock.targetOf_eq block.name block.name_not_where
  have inside : (Line.plain (n + 1) block.body).take block.body.length =
      Line.plain (n + 1) block.body := List.take_of_length_le (Line.length_plain _ _).le
  have functions_eq : ImplBlock.readFunctions block.name.text 0 0 (Line.plain (n + 1) block.body) =
      .ok (FunctionDecl.models block.name (n + 1) block.functions) :=
    FunctionDecl.readFunctions_flatMap_lines block.name (n + 1) block.functions _
  have definition_eq := Line.rawThrough_plain n block.body.length (block.header :: block.body)
  rw [List.take_of_length_le (by simp), Line.plain_cons] at definition_eq
  rw [ImplBlock.read, code_eq, text_eq, firstOutsideAngles?_title]
  simp only [block.inner_nested.closeBrace?_eq, same_line, lineFeeds_inner, List.drop_zero, inside,
    target_eq, functions_eq, definition_eq, Nat.zero_add]
  rfl

theorem isPlain_of_mem : ∀ line ∈ block.lines, ∀ c ∈ line, isPlain c = true := by
  have in_struct : ∀ c ∈ block.structLine, isPlain c = true := by
    unfold structLine
    rw [List.forall_mem_append, List.forall_mem_append]
    exact ⟨⟨forall_mem_of_all rfl, block.name.isPlain_of_mem⟩, forall_mem_of_all rfl⟩
  have in_header : ∀ c ∈ block.header, isPlain c = true := by
    unfold header title
    rw [List.forall_mem_append, List.forall_mem_append, List.forall_mem_append]
    exact ⟨⟨⟨forall_mem_of_all rfl, block.name.isPlain_of_mem⟩, forall_mem_of_all rfl⟩,
      forall_mem_of_all rfl⟩
  have in_body : ∀ line ∈ block.body, ∀ c ∈ line, isPlain c = true := by
    simp only [body, List.forall_mem_append, List.forall_mem_singleton, List.forall_mem_flatMap]
    exact ⟨fun function _ => function.isPlain_of_mem, forall_mem_of_all rfl⟩
  simp only [lines, List.forall_mem_cons]
  exact ⟨forall_mem_of_all rfl, in_struct, forall_mem_of_all rfl, in_header, in_body⟩

end BlockDecl

namespace Outline

/-- A marked block is recorded, and the scan goes on below it. -/
theorem scanFrom_marked_block (path : String) (n : Nat) (block : BlockDecl) :
    scanFrom path .initial (Line.plain n ("#[contractimpl]".toList :: block.header :: block.body)) =
      ⟨[], [block.model (n + 1)], none⟩ := by
  let marked : ScanState := { ScanState.initial with markers := ["contractimpl".toList] }
  let first : Line := ⟨n + 1, block.header, block.header⟩
  have attribute_spaced : Spaced "#[contractimpl]".toList := .of_word rfl
  have peeled : Attribute.peel "#[contractimpl]".toList = ⟨["contractimpl".toList], [], true⟩ := by
    decide +kernel
  have no_attribute : first.code.head? ≠ some '#' := fun same =>
    absurd (Option.some.inj same) (by decide)
  have is_head : ImplBlock.header.isHeadOf first.code = true := ImplBlock.header_isHeadOf _
  have no_type : typeMarkers.any marked.markers.contains = false := by decide
  have block_mark : marked.markers.contains implMarker = true := by decide
  have header_step : step marked first (Line.plain (n + 2) block.body) =
      .block (block.model (n + 1)) block.body.length := by
    rw [step_item rfl block.header_spaced no_attribute, atItem, no_type, block_mark, is_head,
      block.read_eq]
    rfl
  have below : (Line.plain (n + 2) block.body).drop block.body.length = [] :=
    List.drop_of_length_le (Line.length_plain _ _).le
  have skipped : (marked.behind block.body.length).skip = block.body.length := rfl
  rw [scanFrom_attribute path n attribute_spaced peeled, Line.plain_cons,
    scanFrom_block rfl header_step, scanFrom_drop, skipped, below]
  rfl

end Outline

namespace BlockDecl

variable (block : BlockDecl)

/-- A scan of the rendered lines records the struct and the block. -/
theorem scanFrom_lines (path : String) :
    Outline.scanFrom path .initial (Line.plain 1 block.lines) =
      ⟨[block.structModel 2], [block.model 4], none⟩ := by
  let below := "#[contractimpl]".toList :: block.header :: block.body
  have braces : joinLines ("\x7b \x7d".toList :: below) =
      '{' :: [' '] ++ '}' :: below.flatMap ('\n' :: ·) := by
    rw [joinLines_cons]
    rfl
  have spaced : Spaced block.structLine :=
    Struct.title_spaced block.name (.gap (by decide) (.single (by decide)))
  have nested : Nested [' '] := .of_braceless (by decide) (by decide)
  have no_feeds : lineFeeds [' '] = 0 := rfl
  have scanned := Outline.scanFrom_marked_struct path 1 spaced braces nested
  rw [no_feeds, List.drop_zero, Outline.scanFrom_marked_block path 3 block, List.take_succ_cons,
    List.take_zero, joinLines_singleton] at scanned
  have no_fields : Field.readAll 2 [' '] = [] := rfl
  have struct_eq : Struct.ofBody block.name 2 [' '] (String.ofList block.structLine) =
      block.structModel 2 := by
    rw [Struct.ofBody, no_fields]
    rfl
  rw [← struct_eq]
  exact scanned

end BlockDecl

namespace Contract

/-- A contract type with one marked block is recovered with the functions of the block. -/
theorem parse_block (block : BlockDecl) (path : String) :
    let source := String.ofList (terminated block.lines)
    parse source path = .ok {
      name := String.ofList block.name.text
      types := [block.structModel 2]
      impls := [block.model 4]
      source
      path } :=
  parse_plain block.isPlain_of_mem (block.scanFrom_lines path)

end Contract
end SorobanLint
