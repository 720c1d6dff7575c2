import SorobanLint.Proofs.Leading
import SorobanLint.Proofs.Marked
import SorobanLint.Proofs.Masked.Plain
import SorobanLint.Proofs.Unbroken.Header

/-!
# Markings

A declaration is recorded only where the masked source spells its marking out: a marker attribute,
then nothing but blanks and attributes, and then the header, from which the declaration is read
(`Outline.Reached.exists_struct`, `Outline.Reached.exists_block`).  The marker is plain code, so no
marker comes out of a comment or a literal (`Contract.markings_of_parse`).
-/

namespace SorobanLint

open Text

/-! ## Headers of structs -/

namespace Struct

open Pattern

variable {text more : List Char}

/-- What stands in front of the name of a struct is passed alike in front of every name. -/
theorem exists_lead_of_isHeadOf (heads : header.isHeadOf text = true) :
    ∃ lead c behind, text = lead ++ c :: behind ∧
      ∀ {name rest : List Char}, (∀ c ∈ name, isWord c = true) →
        (∀ c ∈ rest.head?, isWord c = false) →
        header.Stops (.mk (.start (lead ++ c :: (name ++ rest))) none)
          (.mk ⟨(c :: name).reverse ++ lead.reverse, rest⟩
            (some (⟨lead.reverse, c :: (name ++ rest)⟩,
              ⟨(c :: name).reverse ++ lead.reverse, rest⟩))) := by
  obtain ⟨_, after, rfl, mark, _, rfl, mark_reads, _, _, rfl, rfl, gap, _, rfl, gap_reads, _, _,
    rfl, ⟨_, name, rfl, ⟨c, rfl, start⟩, -⟩, rfl⟩ := (isHeadOf_iff text).mp heads
  obtain ⟨visibility, marked⟩ := Visibility.maybe_mark_stops_of_reads mark_reads
  refine ⟨mark ++ ("struct".toList ++ gap), c, name ++ after, by simp, ?_⟩
  intro name rest inside outside
  have solid : ∀ d ∈ (c :: (name ++ rest)).head?, isBlank d = false := by
    rintro d ⟨⟩
    exact isBlank_of_isIdentRest (isIdentRest_of_isIdentStart start)
  have stops := (marked (c := 's') ("truct".toList ++ (gap ++ c :: (name ++ rest)))
      (by decide) (by decide) (by decide)).2.all_cons
    ((stops_text _ "struct".toList _ none).all_cons
      ((stops_gap_of_reads gap_reads solid _ none).all_cons
        ((((stops_one start _ _ none).seq
          (stops_many inside outside _ none)).capture).all_cons (stops_all_nil _))))
  simpa [Place.start, header] using stops

/-- A header is matched in front of a blank as it is matched at the end of the text. -/
theorem header_append {found : Match} (matched : header.match? text = some found)
    (blank : ∀ c ∈ more.head?, isBlank c = true) :
    ∃ whole, header.match? (text ++ more) = some whole ∧ whole.captured = found.captured ∧
      whole.stop.offset = found.stop.offset := by
  have heads : header.isHeadOf text = true := by
    rw [isHeadOf, matched]
    rfl
  obtain ⟨lead, c, behind, rfl, stops⟩ := exists_lead_of_isHeadOf heads
  -- the name goes on as far as word characters follow, and `more` begins with none
  have word : ∀ c ∈ behind.takeWhile isWord, isWord c = true :=
    fun c mem => List.mem_takeWhile_imp mem
  have behind_eq : behind = behind.takeWhile isWord ++ behind.dropWhile isWord :=
    List.takeWhile_append_dropWhile.symm
  have outside : ∀ c ∈ (behind.dropWhile isWord).head?, isWord c = false := by
    intro c mem
    have stopped := List.head?_dropWhile_not isWord behind
    rw [Option.mem_def.mp mem] at stopped
    simpa using stopped
  generalize behind.takeWhile isWord = name at word behind_eq
  generalize behind.dropWhile isWord = rest at outside behind_eq
  subst behind_eq
  have outside_more : ∀ c ∈ (rest ++ more).head?, isWord c = false := by
    cases rest with
    | nil => exact fun c mem => isWord_of_isBlank (blank c mem)
    | cons d rest => exact outside
  obtain rfl := Option.some.inj (matched.symm.trans (stops word outside).match?_eq)
  have whole_eq : lead ++ c :: (name ++ rest) ++ more = lead ++ c :: (name ++ (rest ++ more)) := by
    simp
  rw [whole_eq]
  refine ⟨_, (stops word outside_more).match?_eq, ?_, rfl⟩
  exact (Match.captured_eq _ _ lead.reverse (c :: name) (rest ++ more)).trans
    (Match.captured_eq _ _ lead.reverse (c :: name) rest).symm

end Struct

/-! ## Markings -/

namespace Outline

open Attribute

/-- A place of a source where an item stands behind an attribute of one of the names. -/
structure Marking (codes names : List (List Char)) where
  /-- The source in front of the marker. -/
  above : List Char
  /-- The text between the brackets of the marker. -/
  inner : List Char
  /-- The marker itself. -/
  marker : List Char
  /-- What stands between the marker and the item. -/
  between : List Char
  /-- The item, and the source behind it. -/
  header : List Char
  text_eq : joinLines codes = above ++ (marker ++ (between ++ header))
  written : Written inner marker
  named : lastSegment (path inner) ∈ names
  leading : Leading between

/-- The line on which the item begins. -/
def Marking.line {codes names : List (List Char)} (marking : Marking codes names) : Nat :=
  lineFeeds (marking.above ++ (marking.marker ++ marking.between)) + 1

variable {codes pending : List (List Char)} {attributes : List Char} {state : ScanState}
  {line : Line} {index last : Nat}

/-- An item is marked in the source if an attribute is announced that marks it, or stands in front
of it on its line. -/
theorem Announced.exists_marking {below others : List (List Char)} {item : List Char}
    (names : List (List Char)) (announced : Announced codes pending attributes state index)
    (feedless : ∀ code ∈ codes, '\n' ∉ code) (here : codes.drop index = line.code :: below)
    (peeled : peel (state.codeAt line) = ⟨others, item, true⟩) (nonempty : item ≠ [])
    (named : ∃ name ∈ names, name ∈ state.markers ++ others) :
    ∃ marking : Marking codes names,
      marking.header = joinLines (line.codeFrom item :: below) ∧ marking.line = index + 1 := by
  obtain ⟨above, whole, above_feeds⟩ := announced.exists_above feedless here peeled
  obtain ⟨text, ⟨front, front_eq⟩, ⟨name, name_mem, begins⟩, rest_eq⟩ :=
    announced.exists_marker here peeled nonempty named
  obtain ⟨-, trail, -, header_eq⟩ := announced.exists_behind_item peeled below
  have closed : (peel text).closed = true := by
    refine closed_of_rest ?_
    rw [← peel, rest_eq, header_eq]
    exact List.append_ne_nil_of_left_ne_nil nonempty trail
  obtain ⟨inside, begun, name_eq⟩ := Option.bind_eq_some_iff.mp begins
  obtain ⟨inner, marker, behind, written, rfl, inner_eq, text_peeled⟩ :=
    exists_written begun closed
  rw [text_peeled] at closed rest_eq
  obtain ⟨between, behind_eq, leading⟩ := exists_leading closed
  rw [rest_eq] at behind_eq
  have named : lastSegment (path inner) ∈ names := by
    rw [inner_eq, name?_eq] at name_eq
    split at name_eq
    · contradiction
    · rwa [Option.some.inj name_eq]
  have above_eq : above = front ++ (marker ++ between) := by
    refine (List.append_left_inj (joinLines (line.codeFrom item :: below))).mp ?_
    rw [← whole, ← front_eq, behind_eq]
    simp
  have text_eq : joinLines codes =
      front ++ (marker ++ (between ++ joinLines (line.codeFrom item :: below))) := by
    rw [← front_eq, behind_eq]
  refine ⟨⟨front, inner, marker, between, _, text_eq, written, named, leading⟩, rfl, ?_⟩
  rw [Marking.line, ← above_eq, above_feeds]

/-- A struct that is recorded is read where it is marked: the header gives its name, on the line of
the struct, and the text behind the header its fields. -/
theorem Reached.exists_struct {struct : Struct} (reached : Reached codes (.struct struct last))
    (feedless : ∀ code ∈ codes, '\n' ∉ code) :
    ∃ marking : Marking codes typeMarkers, struct.line = marking.line ∧
      ∃ found, Struct.header.match? marking.header = some found ∧
        struct.name = String.ofList found.captured ∧
        '\n' ∉ marking.header.take found.stop.offset ∧
        Struct.body (marking.header.drop found.stop.offset) marking.line =
          .ok (struct.fields, last) := by
  obtain @⟨pending, attributes, state, line, later, index, announced, here, number_eq, step_eq⟩ :=
    reached
  obtain ⟨⟨names, item, closed⟩, peeled, rfl, marker, found, matched, read⟩ := step_struct step_eq
  have nonempty : item ≠ [] := by
    rintro rfl
    contradiction
  obtain ⟨marking, header_eq, line_eq⟩ :=
    announced.exists_marking typeMarkers feedless here peeled.symm nonempty
      (by simpa using marker)
  obtain ⟨begins, trail, blank, behind_eq⟩ := announced.exists_behind_item peeled.symm _
  obtain ⟨whole, whole_matched, captured_eq, offset_eq⟩ := Struct.header_append matched blank
  obtain ⟨fields, body_eq, rfl⟩ := Struct.read_eq_ok read
  have offset_le := (Pattern.offset_le_of_match? matched).trans begins.length_le
  refine ⟨marking, by rw [number_eq, line_eq], whole, ?_, ?_, ?_, ?_⟩
  · rw [header_eq, behind_eq, whole_matched]
  · rw [captured_eq]
  · have code_mem : line.code ∈ codes := by
      refine List.mem_of_mem_drop (i := index) ?_
      rw [here]
      exact List.mem_cons_self
    rw [header_eq, offset_eq, joinLines_cons, List.take_append_of_le_length offset_le]
    exact fun mem => feedless _ code_mem (List.mem_of_mem_drop (List.mem_of_mem_take mem))
  · rw [header_eq, line_eq, ← number_eq, offset_eq, joinLines_cons,
      List.drop_append_of_le_length offset_le, ← joinLines_cons]
    exact body_eq

/-- A block that is recorded is read where it is marked: the type it implements is that of the
header in front of its opening brace. -/
theorem Reached.exists_block {block : ImplBlock} (reached : Reached codes (.block block last))
    (feedless : ∀ code ∈ codes, '\n' ∉ code) :
    ∃ marking : Marking codes [implMarker], block.line = marking.line ∧
      ImplBlock.header.isHeadOf marking.header = true ∧
      ∃ before after,
        Bracket.firstOutsideAngles? (fun c => c = '{' || c = ';') 0 none marking.header =
          some (before, '{', after) ∧
        block.target = String.ofList (ImplBlock.targetOf before) := by
  obtain ⟨announced, here, number_eq, step_eq⟩ := reached
  obtain ⟨⟨names, item, closed⟩, peeled, rfl, marker, headed, read⟩ := step_block step_eq
  have nonempty : item ≠ [] := by
    rintro rfl
    contradiction
  obtain ⟨marking, header_eq, line_eq⟩ :=
    announced.exists_marking [implMarker] feedless here peeled.symm nonempty
      ⟨implMarker, List.mem_singleton_self _, marker⟩
  obtain ⟨-, trail, blank, behind_eq⟩ := announced.exists_behind_item peeled.symm _
  obtain ⟨before, after, inner, tail, functions, opened, -, -, -, rfl⟩ := ImplBlock.read_eq_ok read
  refine ⟨marking, by rw [number_eq, line_eq], ?_, before, after, ?_, rfl⟩
  · rw [header_eq, behind_eq]
    exact ImplBlock.isHeadOf_append headed blank
  · rw [header_eq]
    exact opened

/-- A marker is plain code. -/
theorem Marking.inCode {texts : List (List Char)} (marking : Marking (mask texts) names) :
    Mask.InCode texts marking.above := by
  have text_eq := marking.text_eq
  rcases marking.written.text_eq with marker_eq | marker_eq <;>
  · rw [marker_eq] at text_eq
    exact Mask.inCode_of_mask text_eq (by decide) (by decide)

end Outline

namespace Contract

open Outline

variable {source path : String} {contract : Contract}

/-- In the masked source, a marker in plain code stands in front of every recorded declaration, and
between the two there are only blanks and attributes. -/
theorem markings_of_parse (parsed : parse source path = .ok contract) :
    (∀ struct ∈ contract.types, ∃ marking : Marking (mask (linesOf source)) typeMarkers,
      struct.line = marking.line ∧ Mask.InCode (linesOf source) marking.above ∧
      ∃ found, Struct.header.match? marking.header = some found ∧
        struct.name = String.ofList found.captured) ∧
    ∀ block ∈ contract.impls, ∃ marking : Marking (mask (linesOf source)) [implMarker],
      block.line = marking.line ∧ Mask.InCode (linesOf source) marking.above ∧
      ImplBlock.header.isHeadOf marking.header = true ∧
      ∃ before after,
        Bracket.firstOutsideAngles? (fun c => c = '{' || c = ';') 0 none marking.header =
          some (before, '{', after) ∧
        block.target = String.ofList (ImplBlock.targetOf before) := by
  obtain ⟨outline, first, rest, rfl, -, -, rfl⟩ := parse_eq_ok parsed
  have feedless : ∀ text ∈ linesOf source, '\n' ∉ text :=
    fun text mem => (oneLine_of_mem_splitLines mem).feedless
  have masked_feedless := Mask.feedless_linesFrom feedless .code
  obtain ⟨structs, blocks⟩ := reached_scan feedless path
  refine ⟨fun struct mem => ?_, fun block mem => ?_⟩
  · obtain ⟨last, reached⟩ := structs struct mem
    obtain ⟨marking, line_eq, found, matched, name_eq, -, -⟩ :=
      reached.exists_struct masked_feedless
    exact ⟨marking, line_eq, marking.inCode, found, matched, name_eq⟩
  · obtain ⟨last, reached⟩ := blocks block mem
    obtain ⟨marking, line_eq, headed, opened⟩ := reached.exists_block masked_feedless
    exact ⟨marking, line_eq, marking.inCode, headed, opened⟩

/-- Between the marker and the header stand an attribute over two lines, a comment and a blank line,
and a marker in a literal marks nothing. -/
theorem markings_of_parse_attributes :
    let definition := "pub struct A \x7b x: u64 \x7d"
    let block := "impl A \x7b \x7d"
    let source := "#[sdk::contracttype]\n#[doc = concat![\"a\",\n \"#[contractimpl]\"]] // c\n\n" ++
      definition ++ "\nimpl B \x7b \x7d\n#![contractimpl] " ++ block ++ "\n"
    let struct : Struct := ⟨"A", [⟨"x", "u64", .priv, 5⟩], 5, definition⟩
    let block : ImplBlock := ⟨"A", [], 7, "#![contractimpl] " ++ block⟩
    let contract : Contract := ⟨"A", [struct], [block], source, "a.rs"⟩
    parse source "a.rs" = .ok contract ∧
      (∃ marking : Marking (mask (linesOf source)) typeMarkers,
        struct.line = marking.line ∧ Mask.InCode (linesOf source) marking.above) ∧
      ∃ marking : Marking (mask (linesOf source)) [implMarker],
        block.line = marking.line ∧ Mask.InCode (linesOf source) marking.above := by
  intro definition block source struct block contract
  have parsed : parse source "a.rs" = .ok contract := by decide +kernel
  obtain ⟨structs, blocks⟩ := markings_of_parse parsed
  obtain ⟨marking, line_eq, inCode, -⟩ := structs struct (List.mem_singleton.mpr rfl)
  obtain ⟨block_marking, block_line_eq, block_inCode, -⟩ :=
    blocks _ (List.mem_singleton.mpr rfl)
  exact ⟨parsed, ⟨marking, line_eq, inCode⟩, block_marking, block_line_eq, block_inCode⟩

end Contract
end SorobanLint
