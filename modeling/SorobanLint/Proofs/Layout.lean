import SorobanLint.Contract.Parse
import SorobanLint.Proofs.Reading

/-!
# Where declarations stand

A declaration occupies a run of consecutive lines of its source: its definition is the text of
these lines.  In every recovered contract the runs of structs and blocks are disjoint and in order,
the runs of functions are so inside their blocks, and fields stand inside their structs.
-/

namespace SorobanLint

open Text

/-- A run of consecutive lines, given by the numbers of its first and its last line. -/
structure Extent where
  /-- The number of the first line. -/
  first : Int
  /-- The number of the last line. -/
  last : Int
deriving DecidableEq, Repr

namespace Extent

/-- The extent of a definition that begins on the given line: each line feed leads to one more. -/
def ofDefinition (line : Int) (definition : String) : Extent :=
  ⟨line, line + lineFeeds definition.toList⟩

/-- The lines of an extent exist, and joined by line feeds they are the definition. -/
structure Occupies (texts : List (List Char)) (extent : Extent) (definition : String) : Prop where
  first_pos : 1 ≤ extent.first
  first_le_last : extent.first ≤ extent.last
  last_le : extent.last ≤ texts.length
  text_eq : definition = String.ofList (joinLines
    ((texts.drop (extent.first - 1).toNat).take (extent.last - extent.first + 1).toNat))

/-- One extent ends above the first line of the other. -/
def Before (upper lower : Extent) : Prop := upper.last < lower.first

/-- Two extents have no line in common. -/
def Disjoint (a b : Extent) : Prop := a.Before b ∨ b.Before a

/-- One extent lies inside the other, strictly below its first line. -/
def Below (inner outer : Extent) : Prop := outer.first < inner.first ∧ inner.last ≤ outer.last

/-- The line lies inside the extent. -/
def Holds (extent : Extent) (line : Int) : Prop := extent.first ≤ line ∧ line ≤ extent.last

instance (upper lower : Extent) : Decidable (upper.Before lower) :=
  inferInstanceAs (Decidable (_ < _))

instance (extent : Extent) (line : Int) : Decidable (extent.Holds line) :=
  inferInstanceAs (Decidable (_ ∧ _))

/-- The texts of an extent's lines. -/
def slice (extent : Extent) (texts : List (List Char)) : List (List Char) :=
  (texts.drop (extent.first - 1).toNat).take (extent.last - extent.first + 1).toNat

theorem slice_eq_take {extent : Extent} {texts lines : List (List Char)} {index last : Nat}
    (extent_eq : extent = ⟨index + 1, index + 1 + last⟩) (leading : lines <+: texts.drop index)
    (within : last < lines.length) : extent.slice texts = lines.take (last + 1) := by
  obtain ⟨more, whole⟩ := leading
  have start_eq : ((index : Int) + 1 - 1).toNat = index := by omega
  have count_eq : ((index : Int) + 1 + last - (index + 1) + 1).toNat = last + 1 := by omega
  rw [extent_eq, slice]
  dsimp only
  rw [start_eq, count_eq, ← whole, List.take_append_of_le_length (Nat.succ_le_of_lt within)]

end Extent

/-- The lines of a struct. -/
def Struct.extent (struct : Struct) : Extent := .ofDefinition struct.line struct.definition

/-- The lines of a function. -/
def Function.extent (function : Function) : Extent :=
  .ofDefinition function.line function.definition

/-- The lines of a block. -/
def ImplBlock.extent (block : ImplBlock) : Extent := .ofDefinition block.line block.definition

/-- A struct stands in the source, and its fields stand in order inside it. -/
structure Struct.LaidOut (texts : List (List Char)) (struct : Struct) : Prop where
  occupies : struct.extent.Occupies texts struct.definition
  fields_inside : ∀ field ∈ struct.fields, struct.extent.Holds field.line
  fields_ordered : struct.fields.Pairwise fun a b => a.line ≤ b.line

/-- A block stands in the source, and its functions stand one below the other inside it. -/
structure ImplBlock.LaidOut (texts : List (List Char)) (block : ImplBlock) : Prop where
  occupies : block.extent.Occupies texts block.definition
  functions_occupy : ∀ function ∈ block.functions,
    function.extent.Occupies texts function.definition
  functions_below : ∀ function ∈ block.functions, function.extent.Below block.extent
  functions_ordered : block.functions.Pairwise fun a b => a.extent.Before b.extent

/-- The declarations of a contract stand in the source, each in its place. -/
structure Contract.LaidOut (texts : List (List Char)) (contract : Contract) : Prop where
  types_laidOut : ∀ struct ∈ contract.types, struct.LaidOut texts
  impls_laidOut : ∀ block ∈ contract.impls, block.LaidOut texts
  types_ordered : contract.types.Pairwise fun a b => a.extent.Before b.extent
  impls_ordered : contract.impls.Pairwise fun a b => a.extent.Before b.extent
  apart : ∀ struct ∈ contract.types, ∀ block ∈ contract.impls,
    struct.extent.Disjoint block.extent
  functions_ordered : contract.functions.Pairwise fun a b => a.extent.Before b.extent
  fields_ordered : contract.fields.Pairwise fun a b => a.line ≤ b.line

/-! ## Excerpts -/

/-- The lines are consecutive lines of the texts, the first of which has the given index. -/
structure Excerpt (texts : List (List Char)) (index : Nat) (lines : List Line) : Prop where
  numbered : Line.Numbered (index + 1) lines
  raws : lines.map (·.raw) <+: texts.drop index

namespace Excerpt

variable {texts : List (List Char)} {index last : Nat} {line : Line} {lines : List Line}

theorem ofTexts (feedless : ∀ text ∈ texts, '\n' ∉ text) :
    Excerpt texts 0 (Line.ofTexts texts) where
  numbered := Line.numbered_ofTexts feedless
  raws := by simp [Line.map_raw_ofTexts]

theorem drop (excerpt : Excerpt texts index lines) (k : Nat) :
    Excerpt texts (index + k) (lines.drop k) where
  numbered := by
    have numbered := excerpt.numbered.drop k
    rwa [Nat.add_right_comm] at numbered
  raws := by
    obtain ⟨rest, whole⟩ := excerpt.raws
    by_cases short : k ≤ lines.length
    · refine ⟨rest, ?_⟩
      rw [← List.drop_drop, ← whole, List.map_drop,
        List.drop_append_of_le_length (by simpa using short)]
    · simp [List.drop_eq_nil_of_le (Nat.le_of_not_le short)]

theorem tail (excerpt : Excerpt texts index (line :: lines)) : Excerpt texts (index + 1) lines :=
  excerpt.drop 1

theorem take (excerpt : Excerpt texts index lines) (k : Nat) :
    Excerpt texts index (lines.take k) where
  numbered := excerpt.numbered.take k
  raws := ((List.take_prefix k lines).map _).trans excerpt.raws

theorem number_eq (excerpt : Excerpt texts index (line :: lines)) : line.number = index + 1 :=
  excerpt.numbered.1

theorem number_eq_of_append {above : List Line}
    (excerpt : Excerpt texts index (above ++ line :: lines)) :
    line.number = index + above.length + 1 := by
  have below := excerpt.drop above.length
  rw [List.drop_left] at below
  exact below.number_eq

/-- The first lines of an excerpt, up to one of them, are an extent. -/
theorem extent_eq (excerpt : Excerpt texts index lines) (within : last < lines.length) :
    Extent.ofDefinition (index + 1) (Line.rawThrough lines last) =
      ⟨index + 1, index + 1 + last⟩ := by
  obtain ⟨line, rest, rfl⟩ := List.exists_cons_of_length_pos (Nat.zero_lt_of_lt within)
  have feedless := (excerpt.numbered.take (last + 1)).feedless_raw
  rw [List.take_succ_cons, List.map_cons, List.forall_mem_cons] at feedless
  have feeds := lineFeeds_joinLines feedless.1 feedless.2
  rw [List.length_map, List.length_take, Nat.min_eq_left (Nat.le_of_lt_succ within)] at feeds
  rw [Extent.ofDefinition, Line.rawThrough, String.toList_ofList, List.map_cons,
    List.take_succ_cons, ← List.map_take, feeds]

theorem occupies (excerpt : Excerpt texts index lines) (within : last < lines.length) :
    (Extent.ofDefinition (index + 1) (Line.rawThrough lines last)).Occupies texts
      (Line.rawThrough lines last) := by
  obtain ⟨rest, whole⟩ := excerpt.raws
  have lengths := congrArg List.length whole
  simp only [List.length_append, List.length_map, List.length_drop] at lengths
  have same : (texts.drop index).take (last + 1) = (lines.map (·.raw)).take (last + 1) := by
    rw [← whole, List.take_append_of_le_length (by simpa using Nat.succ_le_of_lt within)]
  rw [excerpt.extent_eq within]
  refine ⟨by dsimp only; omega, by dsimp only; omega, by dsimp only; omega, ?_⟩
  have start_eq : ((index : Int) + 1 - 1).toNat = index := by omega
  have count_eq : ((index : Int) + 1 + last - (index + 1) + 1).toNat = last + 1 := by omega
  dsimp only
  rw [start_eq, count_eq, same, Line.rawThrough]

end Excerpt

/-! ## Declarations -/

section Declarations

variable {texts : List (List Char)} {index last : Nat} {line : Line} {later : List Line}

theorem Line.feedless_codeFrom {line : Line} (feedless : '\n' ∉ line.code) (rest : List Char) :
    '\n' ∉ line.codeFrom rest :=
  fun mem => feedless (List.mem_of_mem_drop mem)

theorem lineFeeds_codeText {header : List Char} (feedless : '\n' ∉ header)
    (excerpt : Excerpt texts index (line :: later)) :
    lineFeeds (Line.codeText header later) = later.length := by
  rw [Line.codeText, lineFeeds_joinLines feedless excerpt.tail.numbered.feedless_code,
    List.length_map]

/-- A struct ends on a line of the excerpt it is read from. -/
theorem Struct.laidOut_of_read {rest : List Char} {found : Match} {struct : Struct}
    (excerpt : Excerpt texts index (line :: later))
    (read : Struct.read (line.codeFrom rest) found line later = .ok (struct, last)) :
    last ≤ later.length ∧ struct.extent = ⟨index + 1, index + 1 + last⟩ ∧
      struct.LaidOut texts := by
  obtain ⟨fields, inside, rfl⟩ := Struct.read_eq_ok read
  obtain ⟨last_le, bounds, ordered⟩ := Struct.body_eq_ok inside
  have feedless : '\n' ∉ (line.codeFrom rest).drop found.stop.offset :=
    fun mem => Line.feedless_codeFrom excerpt.numbered.2.2.1 rest (List.mem_of_mem_drop mem)
  rw [lineFeeds_codeText feedless excerpt] at last_le
  rw [excerpt.number_eq] at bounds
  have within : last < (line :: later).length := Nat.lt_succ_of_le last_le
  have extent_eq : Extent.ofDefinition line.number (Line.rawThrough (line :: later) last) =
      ⟨index + 1, index + 1 + last⟩ := by
    rw [excerpt.number_eq]
    exact excerpt.extent_eq within
  refine ⟨last_le, extent_eq, ?_, ?_, ordered⟩
  · have occupies := excerpt.occupies within
    rwa [excerpt.extent_eq within, ← extent_eq] at occupies
  · intro field mem
    rw [Struct.extent, extent_eq]
    simpa [Extent.Holds] using bounds field mem

/-- A function ends on a line of the excerpt it is read from. -/
theorem Function.occupies_of_read {target item : List Char} {function : Function}
    (excerpt : Excerpt texts index (line :: later))
    (read : Function.read target item line later = .ok (function, last)) :
    last ≤ later.length ∧ function.extent = ⟨index + 1, index + 1 + last⟩ ∧
      function.extent.Occupies texts function.definition := by
  obtain ⟨found, -, read⟩ := Function.read_eq_ok read
  obtain ⟨signature, -, closed, rfl⟩ := Function.readFound_eq_ok read
  have feedless : ∀ code ∈ line.codeFrom item :: later.map (·.code), '\n' ∉ code :=
    List.forall_mem_cons.mpr ⟨Line.feedless_codeFrom excerpt.numbered.2.2.1 item,
      excerpt.tail.numbered.feedless_code⟩
  have last_le := Function.lastLine_lt feedless (List.cons_ne_nil _ _) closed
  rw [List.length_cons, List.length_map] at last_le
  have within : last < (line :: later).length := by simpa using last_le
  have extent_eq : Extent.ofDefinition line.number (Line.rawThrough (line :: later) last) =
      ⟨index + 1, index + 1 + last⟩ := by
    rw [excerpt.number_eq]
    exact excerpt.extent_eq within
  refine ⟨Nat.le_of_lt_succ last_le, extent_eq, ?_⟩
  have occupies := excerpt.occupies within
  rwa [excerpt.extent_eq within, ← extent_eq] at occupies

/-- The functions of a block stand one below the other, below the lines already read. -/
theorem ImplBlock.functions_laidOut {target : List Char} {skip depth : Nat} {lines : List Line}
    {functions : List Function} (excerpt : Excerpt texts index lines)
    (read : readFunctions target skip depth lines = .ok functions) :
    (∀ function ∈ functions, function.extent.Occupies texts function.definition ∧
      index + skip < function.extent.first ∧ function.extent.last ≤ index + lines.length) ∧
      functions.Pairwise fun a b => a.extent.Before b.extent := by
  fun_induction readFunctions target skip depth lines generalizing index functions with
  | case1 => simp_all
  | case2 => simp_all
  | case3 skip depth line next rest ih =>
      obtain ⟨below, ordered⟩ := ih excerpt.tail read
      refine ⟨?_, ordered⟩
      intro function mem
      obtain ⟨occupies, lower, upper⟩ := below function mem
      refine ⟨occupies, ?_, ?_⟩
      · push_cast at lower ⊢
        omega
      · simp only [List.length_cons] at upper ⊢
        omega
  | case4 depth line next rest isHeader ih =>
      obtain ⟨⟨head, last⟩, head_read, read⟩ := bind_eq_ok_iff.mp read
      obtain ⟨others, others_read, result⟩ := bind_eq_ok_iff.mp read
      obtain rfl := Except.ok.inj result
      obtain ⟨last_le, extent_eq, occupies⟩ := Function.occupies_of_read excerpt head_read
      obtain ⟨below, ordered⟩ := ih last excerpt.tail others_read
      simp only [List.length_cons] at last_le
      refine ⟨?_, List.pairwise_cons.mpr ⟨?_, ordered⟩⟩
      · rw [List.forall_mem_cons]
        refine ⟨⟨occupies, ?_, ?_⟩, ?_⟩
        · rw [extent_eq]
          dsimp only
          omega
        · rw [extent_eq]
          simp only [List.length_cons]
          omega
        · intro function mem
          obtain ⟨occupies, lower, upper⟩ := below function mem
          simp only [List.length_cons] at upper ⊢
          exact ⟨occupies, by omega, by omega⟩
      · intro function mem
        obtain ⟨-, lower, -⟩ := below function mem
        simp only [Extent.Before, extent_eq]
        omega
  | case5 depth line next rest notHeader ih =>
      obtain ⟨below, ordered⟩ := ih excerpt.tail read
      refine ⟨?_, ordered⟩
      intro function mem
      obtain ⟨occupies, lower, upper⟩ := below function mem
      simp only [List.length_cons] at upper ⊢
      exact ⟨occupies, by omega, by omega⟩

/-- A block ends on a line of the excerpt it is read from. -/
theorem ImplBlock.last_le_of_read {item : List Char} {block : ImplBlock}
    (excerpt : Excerpt texts index (line :: later))
    (read : ImplBlock.read item line later = .ok (block, last)) : last ≤ later.length := by
  obtain ⟨before, after, inner, tail, functions, opened, closed, -, rfl, -⟩ :=
    ImplBlock.read_eq_ok read
  have feedless := Line.feedless_codeFrom excerpt.numbered.2.2.1 item
  rw [← lineFeeds_codeText feedless excerpt, (Bracket.append_of_firstOutsideAngles? opened).1,
    Bracket.append_of_closeBrace? closed, lineFeeds_append,
    lineFeeds_cons_of_ne (by decide), lineFeeds_append]
  omega

/-- A block holds its functions below its header and above its end. -/
theorem ImplBlock.laidOut_of_read {item : List Char} {block : ImplBlock}
    (excerpt : Excerpt texts index (line :: later))
    (read : ImplBlock.read item line later = .ok (block, last)) :
    block.extent = ⟨index + 1, index + 1 + last⟩ ∧ block.LaidOut texts := by
  have feeds := last_le_of_read excerpt read
  obtain ⟨before, after, inner, tail, functions, opened, closed, listed, rfl, rfl⟩ :=
    ImplBlock.read_eq_ok read
  have within : lineFeeds before + lineFeeds inner < (line :: later).length :=
    Nat.lt_succ_of_le feeds
  have extent_eq : Extent.ofDefinition line.number
      (Line.rawThrough (line :: later) (lineFeeds before + lineFeeds inner)) =
      ⟨index + 1, index + 1 + (lineFeeds before + lineFeeds inner : Nat)⟩ := by
    rw [excerpt.number_eq]
    exact excerpt.extent_eq within
  have inside := (excerpt.tail.drop (lineFeeds before)).take (lineFeeds inner)
  obtain ⟨below, ordered⟩ := ImplBlock.functions_laidOut inside listed
  refine ⟨extent_eq, ?_, fun function mem => (below function mem).1, ?_, ordered⟩
  · have occupies := excerpt.occupies within
    rwa [excerpt.extent_eq within, ← extent_eq] at occupies
  · intro function mem
    obtain ⟨-, lower, upper⟩ := below function mem
    rw [List.length_take, List.length_drop] at upper
    simp only [Extent.Below, ImplBlock.extent, extent_eq]
    constructor <;> omega

end Declarations
end SorobanLint
