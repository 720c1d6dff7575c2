import SorobanLint.Proofs.Nesting
import SorobanLint.Proofs.Render.Balance
import SorobanLint.Proofs.Render.Source

/-!
# Rendered structs

Structs that are rendered one below the other, with one field on each line, are recovered as they
were (`Contract.parse_structs`).
-/

namespace SorobanLint

open Text SorobanLint.Bracket

/-- A field to be rendered. -/
structure FieldDecl where
  /-- Whether the field is marked `pub`. -/
  visibility : Visibility
  /-- The name. -/
  name : Ident
  /-- The type. -/
  type : TypeExpr

/-- A struct to be rendered. -/
structure StructDecl where
  /-- The name. -/
  name : Ident
  /-- The fields in order. -/
  fields : List FieldDecl

namespace FieldDecl

/-- The declaration without the comma behind it. -/
def declaration (field : FieldDecl) : List Char :=
  field.visibility.text ++ field.name.ascribe field.type

/-- The line of a field. -/
def text (field : FieldDecl) : List Char :=
  "    ".toList ++ field.declaration ++ [',']

/-- The field on the given line. -/
def model (field : FieldDecl) (line : Nat) : Field where
  name := String.ofList field.name.text
  typeName := String.ofList field.type.text
  visibility := field.visibility
  line := line

/-- The fields on lines from the given one on. -/
def models : Nat → List FieldDecl → List Field
  | _, [] => []
  | line, field :: fields => field.model line :: models (line + 1) fields

end FieldDecl

namespace StructDecl

/-- The lines from the header to the closing brace. -/
def definition (struct : StructDecl) : List (List Char) :=
  ("pub struct ".toList ++ struct.name.text ++ " \x7b".toList) ::
    (struct.fields.map FieldDecl.text ++ ["\x7d".toList])

/-- The lines of a struct with its marker. -/
def lines (struct : StructDecl) : List (List Char) :=
  "#[contracttype]".toList :: struct.definition

/-- The struct whose header stands on the given line. -/
def model (struct : StructDecl) (line : Nat) : Struct where
  name := String.ofList struct.name.text
  fields := FieldDecl.models (line + 1) struct.fields
  line := line
  definition := String.ofList (joinLines struct.definition)

/-- The structs whose lines, with their markers, begin on the given line. -/
def models : Nat → List StructDecl → List Struct
  | _, [] => []
  | line, struct :: structs =>
    struct.model (line + 1) :: models (line + struct.lines.length) structs

end StructDecl

/-! ## Fields -/

namespace FieldDecl

variable (field : FieldDecl)

theorem declaration_spaced : Spaced field.declaration := by
  have keyword : Spaced "pub".toList := .of_word rfl
  have named := field.name.ascribe_spaced field.type
  rw [declaration]
  cases field.visibility with
  | pub => exact keyword.append_space named
  | priv => exact named

theorem isTypeChar_of_mem : ∀ c ∈ field.declaration, isTypeChar c = true := by
  rw [declaration, List.forall_mem_append]
  exact ⟨field.visibility.isTypeChar_of_mem, field.name.isTypeChar_of_mem_ascribe field.type⟩

theorem getLast?_declaration : field.declaration.getLast? = field.type.text.getLast? := by
  rw [declaration, List.getLast?_append_of_ne_nil _ (field.name.ascribe_spaced field.type).ne_nil,
    Ident.ascribe, List.getLast?_append_of_ne_nil _ (List.cons_ne_nil _ _), List.getLast?_cons_cons,
    List.getLast?_cons_of_ne_nil field.type.spaced.ne_nil]

/-- The piece of a struct's body that holds a field, up to its comma. -/
theorem piece_balanced : Balanced ("\n    ".toList ++ field.declaration) := by
  have front : Balanced ("\n    ".toList ++ field.visibility.text) := by
    refine .of_plain ?_ (by simp)
    cases field.visibility <;> exact forall_mem_of_all rfl
  have whole := front.append (field.name.ascribe_balanced field.type)
  rw [List.append_assoc] at whole
  exact whole

theorem piece_feeds : lineFeeds ("\n    ".toList ++ field.declaration) = 1 := by
  have feedless : '\n' ∉ field.declaration :=
    not_mem_of_isTypeChar field.isTypeChar_of_mem (by decide)
  rw [lineFeeds_append, lineFeeds_eq_zero feedless]
  rfl

theorem declaration_eq : Field.declaration ("\n    ".toList ++ field.declaration) =
    field.declaration := by
  have slashless : ∀ c ∈ "\n    ".toList ++ field.declaration, c ≠ '/' := by
    rw [List.forall_mem_append]
    exact ⟨forall_mem_of_all rfl,
      fun c mem => ne_of_isTypeChar (field.isTypeChar_of_mem c mem) (by decide)⟩
  have no_attribute : field.declaration.head? ≠ some '#' := by
    intro head_eq
    have mem := List.mem_of_mem_head? (Option.mem_def.mpr head_eq)
    exact not_mem_of_isTypeChar field.isTypeChar_of_mem (by decide) mem
  have kept : ∀ c ∈ field.declaration.getLast?, (decide (c = ',') || decide (c = ';')) = false := by
    rw [field.getLast?_declaration]
    exact field.type.getLast?_text
  have trimmed : trim ("\n    ".toList ++ field.declaration) = field.declaration := by
    rw [trim_append_blank (forall_mem_of_all rfl), field.declaration_spaced.trim_eq]
  rw [Field.declaration, upTo_of_forall slashless, trimmed,
    Attribute.peel_code field.declaration_spaced no_attribute]
  simp only [field.declaration_spaced.trim_eq, dropEndWhile_eq kept]

/-- A field is read from its piece of a struct's body. -/
theorem parse?_eq (line : Nat) :
    Field.parse? ("\n    ".toList ++ field.declaration) line = some (field.model line) := by
  have unmarked : Visibility.Unmarked (field.name.text ++ ':' :: ' ' :: field.type.text) :=
    Visibility.unmarked_ident field.name (by decide) (by decide) (by decide) _
  have split : Visibility.split field.declaration =
      (field.visibility, field.name.text ++ ':' :: ' ' :: field.type.text) :=
    Visibility.split_text field.visibility unmarked
  have type_eq : squeeze (' ' :: field.type.text) = field.type.text := by
    rw [squeeze_cons_blank (by decide), field.type.spaced.squeeze_eq]
  have nonempty : field.type.text.isEmpty = false :=
    List.isEmpty_eq_false_iff.mpr field.type.spaced.ne_nil
  rw [Field.parse?, field.declaration_eq, split]
  simp only [Ident.takeWhile_colon, Ident.dropWhile_colon, field.name.spaced.trim_eq, type_eq,
    nonempty, field.name.isIdentifier_text]
  rfl

end FieldDecl

namespace Field

theorem parse?_eq_none {text : List Char} (nothing : declaration text = []) (line : Int) :
    parse? text line = none := by
  rw [parse?, nothing]
  rfl

/-- The fields of a struct's body are read, each on its line. -/
theorem readFrom_eq (line : Nat) (previous : Option Char) (fields : List FieldDecl) :
    readFrom line (slicesFrom (· = ',') [] previous
      ((fields.map FieldDecl.text).flatMap ('\n' :: ·) ++ ['\n'])) =
      FieldDecl.models (line + 1) fields := by
  induction fields generalizing line previous with
  | nil =>
      have final : Balanced ['\n'] := .of_plain (forall_mem_of_all rfl) (List.cons_ne_nil _ _)
      have nothing : ∀ n : Int, parse? ['\n'] n = none := parse?_eq_none (by decide)
      rw [List.map_nil, List.flatMap_nil, List.nil_append, final.slicesFrom_end, readFrom, nothing]
      rfl
  | cons field fields ih =>
      have text_eq : ((field :: fields).map FieldDecl.text).flatMap ('\n' :: ·) ++ ['\n'] =
          ("\n    ".toList ++ field.declaration) ++
            ',' :: ((fields.map FieldDecl.text).flatMap ('\n' :: ·) ++ ['\n']) := by
        simp [FieldDecl.text]
      have lead_eq :
          ("\n    ".toList ++ field.declaration).takeWhile isBlank = "\n    ".toList := by
        obtain ⟨c, rest, declaration_eq, solid⟩ := field.declaration_spaced.head_solid
        rw [List.takeWhile_append_of_pos (forall_mem_of_all rfl), declaration_eq,
          List.takeWhile_cons_of_neg (by simp [solid]), List.append_nil]
      rw [text_eq, field.piece_balanced.slicesFrom_comma, readFrom, ih, lead_eq, field.piece_feeds]
      have feeds : lineFeeds "\n    ".toList = 1 := rfl
      rw [feeds, field.parse?_eq]
      rfl

theorem readAll_eq (line : Nat) (fields : List FieldDecl) :
    readAll line ((fields.map FieldDecl.text).flatMap ('\n' :: ·) ++ ['\n']) =
      FieldDecl.models (line + 1) fields :=
  readFrom_eq line none fields

end Field

/-! ## Structs -/

/-- The struct with the given body, whose header stands on the given line. -/
def Struct.ofBody (name : Ident) (line : Nat) (inner : List Char) (definition : String) :
    Struct where
  name := String.ofList name.text
  fields := Field.readAll line inner
  line := line
  definition

theorem Struct.title_spaced (name : Ident) {tail : List Char} (spaced : Spaced tail) :
    Spaced ("pub struct ".toList ++ name.text ++ ' ' :: tail) := by
  have visible : Spaced "pub".toList := .of_word rfl
  have keyword : Spaced "struct".toList := .of_word rfl
  have named : Spaced ("pub struct".toList ++ ' ' :: name.text) :=
    (visible.append_space keyword).append_space name.spaced
  exact named.append_space spaced

/-- A struct is read from the line of its header on, up to the brace that closes its body. -/
theorem Struct.read_eq {name : Ident} {line : Line} {later : List Line}
    {tail inner after : List Char}
    (code : line.code = "pub struct ".toList ++ name.text ++ ' ' :: tail)
    (braces : Line.codeText tail later = '{' :: inner ++ '}' :: after) (nested : Nested inner) :
    ∃ found, Struct.header.match? line.code = some found ∧
      Struct.read line.code found line later = .ok (Struct.ofBody name line.number inner
        (Line.rawThrough (line :: later) (lineFeeds inner)), lineFeeds inner) := by
  have outside : ∀ c ∈ (' ' :: tail).head?, isWord c = false := by
    intro c mem
    obtain rfl := Option.mem_some.mp mem
    decide
  obtain ⟨found, matched, captured, behind⟩ := Struct.header_match? name outside
  rw [← code] at matched behind
  have text_eq : Line.codeText (' ' :: tail) later = ' ' :: '{' :: (inner ++ '}' :: after) := by
    rw [Line.codeText, joinLines_cons] at braces ⊢
    rw [List.cons_append, braces]
    rfl
  have opened : firstOutsideAngles? (fun c => c = '{' || c = ';' || c = '(') 0 none
      (' ' :: '{' :: (inner ++ '}' :: after)) = some ([' '], '{', inner ++ '}' :: after) := rfl
  have body_eq : Struct.body (' ' :: '{' :: (inner ++ '}' :: after)) line.number =
      .ok (Field.readAll line.number inner, lineFeeds inner) := by
    rw [Struct.body, opened]
    simp [nested.closeBrace?_eq, lineFeeds]
  refine ⟨found, matched, ?_⟩
  rw [Struct.read, behind, text_eq, body_eq, captured]
  rfl

namespace Outline

theorem atItem_marked {state : ScanState} {markers : List (List Char)} {rest : List Char}
    {line : Line} {later : List Line} {found : Match} {struct : Struct} {last : Nat}
    (marked : typeMarkers.any markers.contains = true)
    (matched : Struct.header.match? rest = some found)
    (read : Struct.read (line.codeFrom rest) found line later = .ok (struct, last)) :
    atItem state markers rest line later = .struct struct last := by
  rw [atItem, marked, matched]
  simp only [read]

/-- A marked struct is recorded, and the scan goes on below it. -/
theorem scanFrom_marked_struct (path : String) (n : Nat) {name : Ident}
    {tail inner after : List Char} {below : List (List Char)}
    (spaced : Spaced ("pub struct ".toList ++ name.text ++ ' ' :: tail))
    (braces : joinLines (tail :: below) = '{' :: inner ++ '}' :: after) (nested : Nested inner) :
    scanFrom path .initial (Line.plain n
        ("#[contracttype]".toList :: ("pub struct ".toList ++ name.text ++ ' ' :: tail) :: below)) =
      (scanFrom path .initial (Line.plain (n + 2 + lineFeeds inner)
        (below.drop (lineFeeds inner)))).addStruct
          (.ofBody name (n + 1) inner (String.ofList (joinLines
            ((("pub struct ".toList ++ name.text ++ ' ' :: tail) :: below).take
              (lineFeeds inner + 1))))) := by
  let marked : ScanState := { ScanState.initial with markers := ["contracttype".toList] }
  let code := "pub struct ".toList ++ name.text ++ ' ' :: tail
  let header : Line := ⟨n + 1, code, code⟩
  have attribute_spaced : Spaced "#[contracttype]".toList := .of_word rfl
  have peeled : Attribute.peel "#[contracttype]".toList = ⟨["contracttype".toList], [], true⟩ := by
    decide +kernel
  have header_code : header.code = code := rfl
  have text_eq : Line.codeText tail (Line.plain (n + 2) below) = '{' :: inner ++ '}' :: after := by
    rw [Line.codeText, Line.map_code_plain, braces]
  obtain ⟨found, matched, read⟩ := Struct.read_eq header_code text_eq nested
  have no_attribute : header.code.head? ≠ some '#' := by
    have head_eq : header.code.head? = some 'p' := rfl
    rw [head_eq]
    decide
  have header_step : step marked header (Line.plain (n + 2) below) =
      .struct (.ofBody name (n + 1) inner (Line.rawThrough (header :: Line.plain (n + 2) below)
        (lineFeeds inner))) (lineFeeds inner) := by
    rw [step_item rfl spaced no_attribute]
    refine atItem_marked (by decide) matched ?_
    rw [Line.codeFrom_eq spaced]
    exact read
  rw [scanFrom_attribute path n attribute_spaced peeled, Line.plain_cons,
    scanFrom_struct rfl header_step, scanFrom_drop]
  have skipped : { marked.behind (lineFeeds inner) with skip := 0 } = ScanState.initial := rfl
  have drop_eq : (Line.plain (n + 2) below).drop (marked.behind (lineFeeds inner)).skip =
      Line.plain (n + 2 + lineFeeds inner) (below.drop (lineFeeds inner)) :=
    Line.plain_drop (n + 2) (lineFeeds inner) below
  have definition_eq := Line.rawThrough_plain (n + 1) (lineFeeds inner) (code :: below)
  rw [skipped, drop_eq, ← definition_eq]
  rfl

end Outline

/-! ## Lists of structs -/

theorem FieldDecl.isTypeChar_of_mem_text (field : FieldDecl) :
    ∀ c ∈ field.text, isTypeChar c = true := by
  simp only [text, List.forall_mem_append]
  exact ⟨⟨forall_mem_of_all rfl, field.isTypeChar_of_mem⟩, forall_mem_of_all rfl⟩

namespace StructDecl

variable (struct : StructDecl)

/-- The text between the braces. -/
def inner : List Char := between (struct.fields.map FieldDecl.text)

theorem inner_nested : Nested struct.inner := by
  have inside : ∀ c ∈ (struct.fields.map FieldDecl.text).flatten, isTypeChar c = true := by
    intro c mem
    obtain ⟨line, line_mem, mem⟩ := List.mem_flatten.mp mem
    obtain ⟨field, -, rfl⟩ := List.mem_map.mp line_mem
    exact field.isTypeChar_of_mem_text c mem
  exact (Nested.of_isTypeChar inside).between_lines

theorem lineFeeds_inner : lineFeeds struct.inner = struct.fields.length + 1 := by
  have feedless : ∀ line ∈ struct.fields.map FieldDecl.text, '\n' ∉ line :=
    List.forall_mem_map.mpr fun field _ =>
      not_mem_of_isTypeChar field.isTypeChar_of_mem_text (by decide)
  rw [inner, lineFeeds_between feedless, List.length_map]

/-- A scan records a rendered struct and goes on below it. -/
theorem scanFrom_lines (path : String) (n : Nat) (below : List (List Char)) :
    Outline.scanFrom path .initial (Line.plain n (struct.lines ++ below)) =
      (Outline.scanFrom path .initial (Line.plain (n + struct.lines.length) below)).addStruct
        (struct.model (n + 1)) := by
  let body := struct.fields.map FieldDecl.text ++ ["\x7d".toList]
  have body_length : body.length = lineFeeds struct.inner := by
    rw [lineFeeds_inner, List.length_append, List.length_map]
    rfl
  have braces : joinLines (['{'] :: (body ++ below)) =
      '{' :: struct.inner ++ '}' :: below.flatMap ('\n' :: ·) := by
    simp [body, inner, joinLines_between]
  have spaced : Spaced ("pub struct ".toList ++ struct.name.text ++ ' ' :: ['{']) :=
    Struct.title_spaced struct.name (.single (by decide))
  have scanned := Outline.scanFrom_marked_struct path n spaced braces struct.inner_nested
  have below_eq : (body ++ below).drop (lineFeeds struct.inner) = below :=
    List.drop_left' body_length
  have definition_eq : (struct.definition ++ below).take (lineFeeds struct.inner + 1) =
      struct.definition := List.take_left' (by rw [← body_length]; rfl)
  have fields_eq :
      Field.readAll (n + 1) struct.inner = FieldDecl.models (n + 1 + 1) struct.fields :=
    Field.readAll_eq (n + 1) struct.fields
  have length_eq : n + 2 + lineFeeds struct.inner = n + struct.lines.length := by
    rw [← body_length]
    simp [lines, definition, body]
    omega
  have model_eq : Struct.ofBody struct.name (n + 1) struct.inner (String.ofList (joinLines
      ((struct.definition ++ below).take (lineFeeds struct.inner + 1)))) =
        struct.model (n + 1) := by
    rw [definition_eq, Struct.ofBody, fields_eq]
    rfl
  rw [below_eq, length_eq] at scanned
  rw [← model_eq]
  exact scanned

theorem isPlain_of_mem : ∀ line ∈ struct.lines, ∀ c ∈ line, isPlain c = true := by
  have of_field (field : FieldDecl) : ∀ c ∈ field.text, isPlain c = true :=
    fun c mem => isPlain_of_isTypeChar (field.isTypeChar_of_mem_text c mem)
  simp only [lines, definition, List.forall_mem_cons, List.forall_mem_append, List.forall_mem_map]
  exact ⟨forall_mem_of_all rfl,
    ⟨⟨forall_mem_of_all rfl, struct.name.isPlain_of_mem⟩, forall_mem_of_all rfl⟩,
    fun field _ => of_field field, forall_mem_of_all rfl, List.forall_mem_nil _⟩

/-- A scan records rendered structs in order. -/
theorem scanFrom_flatMap_lines (path : String) (n : Nat) (structs : List StructDecl) :
    Outline.scanFrom path .initial (Line.plain n (structs.flatMap lines)) =
      ⟨models n structs, [], none⟩ := by
  induction structs generalizing n with
  | nil => rfl
  | cons struct structs ih =>
      rw [List.flatMap_cons, scanFrom_lines, ih]
      rfl

end StructDecl

namespace Contract

/-- Structs that are rendered one below the other are recovered in order, each with its fields on
their lines; the first one names the contract. -/
theorem parse_structs (first : StructDecl) (rest : List StructDecl) (path : String) :
    let source := String.ofList (terminated ((first :: rest).flatMap StructDecl.lines))
    parse source path = .ok {
      name := String.ofList first.name.text
      types := StructDecl.models 1 (first :: rest)
      impls := []
      source
      path } := by
  have plain : ∀ line ∈ (first :: rest).flatMap StructDecl.lines, ∀ c ∈ line, isPlain c = true := by
    intro line mem
    obtain ⟨struct, -, mem⟩ := List.mem_flatMap.mp mem
    exact struct.isPlain_of_mem line mem
  exact parse_plain plain (StructDecl.scanFrom_flatMap_lines path 1 (first :: rest))

end Contract
end SorobanLint
