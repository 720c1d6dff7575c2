import SorobanLint.Proofs.Attributes
import SorobanLint.Proofs.Reads

/-!
# Markers in front of declarations

Every declaration that a scan records stands in the masked source behind a marker attribute, with
nothing but other attributes and blanks between them (`Outline.marked_scan`): at every line the
attributes whose names the scan remembers end the text above that line (`Outline.Announced`), so
also where a declaration is recorded (`Outline.reached_scanFrom`).
-/

namespace SorobanLint

open Text

namespace Attribute

/-- The text begins with an attribute of one of the names, and the header stands behind that one
and the attributes that follow it. -/
def Marks (names : List (List Char)) (header : Pattern) (text : List Char) : Prop :=
  (∃ name ∈ names, (inside? text).bind name? = some name) ∧
    header.isHeadOf (peel text).rest = true

instance (names : List (List Char)) (header : Pattern) (text : List Char) :
    Decidable (Marks names header text) :=
  inferInstanceAs (Decidable (_ ∧ _))

end Attribute

/-- The header of a block is told from its beginning, whatever stands behind a blank. -/
theorem ImplBlock.isHeadOf_append {item more : List Char}
    (headed : ImplBlock.header.isHeadOf item = true)
    (blank : ∀ c ∈ more.head?, isBlank c = true) :
    ImplBlock.header.isHeadOf (item ++ more) = true := by
  rw [Pattern.isHeadOf_iff] at headed ⊢
  obtain ⟨s, after, rfl, mark, behind, rfl, mark_reads, keyword, nothing, rfl, keyword_eq, edge⟩ :=
    headed
  obtain ⟨none_read, end_read, rfl, ⟨rfl, at_edge⟩, rfl⟩ := edge
  have still_edge : Place.atWordEdge
      ⟨keyword.reverse ++ (mark.reverse ++ []), after ++ more⟩ = true := by
    cases after with
    | cons c after => exact at_edge
    | nil =>
        rw [List.nil_append]
        cases more with
        | nil => exact at_edge
        | cons c more =>
            have outside := isWord_of_isBlank (blank c rfl)
            simpa [Place.atWordEdge, outside] using at_edge
  exact ⟨_, after ++ more, List.append_assoc _ after more, mark, _, rfl,
    mark_reads.elsewhere rfl _ _, keyword, _, rfl, keyword_eq, [], [], rfl, ⟨rfl, still_edge⟩, rfl⟩

namespace Outline

open Attribute

/-- On the line stands an item behind an attribute of one of the names. -/
def Marked (codes : List (List Char)) (names : List (List Char)) (header : Pattern) (line : Int) :
    Prop :=
  ∃ above text, text <:+ joinLines codes ∧ Marks names header text ∧
    joinLines codes = above ++ (peel text).rest ∧ line = lineFeeds above + 1

/-- A scan comes to the line with the given index: the attributes whose names it remembers, and the
lines of the attribute that is still open, end the text above. -/
structure Announced (codes pending : List (List Char)) (attributes : List Char) (state : ScanState)
    (index : Nat) : Prop where
  opened_eq : state.opened = if pending = [] then none else some (gather pending)
  unclosed : Unclosed pending
  peeled : peel attributes = ⟨state.markers, [], true⟩
  above : attributes ++ terminated pending <:+ terminated (codes.take index)
  resting : state.skip ≠ 0 → pending = [] ∧ attributes = []

variable {path : String} {codes pending : List (List Char)} {attributes : List Char}
  {state next : ScanState} {line : Line} {lines later : List Line} {index last : Nat}

theorem Announced.nothing {state : ScanState} (unopened : state.opened = none)
    (unmarked : state.markers = []) (index : Nat) : Announced codes [] [] state index where
  opened_eq := unopened
  unclosed := fun nonempty => absurd rfl nonempty
  peeled := by
    rw [unmarked]
    rfl
  above := List.nil_suffix
  resting := fun _ => ⟨rfl, rfl⟩

theorem Announced.behind (state : ScanState) (last index : Nat) :
    Announced codes [] [] (state.behind last) index :=
  .nothing rfl rfl index

theorem drop_below {code : List Char} {below : List (List Char)}
    (here : codes.drop index = code :: below) : codes.drop (index + 1) = below := by
  rw [← List.tail_drop, here]
  rfl

theorem terminated_append (codes more : List (List Char)) :
    terminated (codes ++ more) = terminated codes ++ terminated more :=
  List.flatMap_append

theorem terminated_take_succ {code : List Char} {below : List (List Char)}
    (here : codes.drop index = code :: below) :
    terminated (codes.take (index + 1)) = terminated (codes.take index) ++ terminated [code] := by
  have first : codes[index]? = some code := by
    rw [← List.head?_drop, here]
    rfl
  rw [List.take_add_one, first, terminated_append]
  rfl

/-- A source is its lines above one, that line, and the lines below it. -/
theorem joinLines_of_drop {code : List Char} {below : List (List Char)}
    (here : codes.drop index = code :: below) :
    joinLines codes = terminated (codes.take index) ++ (code ++ below.flatMap ('\n' :: ·)) := by
  rw [← joinLines_cons, ← joinLines_append, ← here, List.take_append_drop]

/-- What stands in front of a place on a line holds as many line feeds as there are lines above. -/
theorem lineFeeds_above {front code : List Char} {below : List (List Char)}
    (feedless : ∀ code ∈ codes, '\n' ∉ code) (here : codes.drop index = code :: below)
    (within : front <+: code) : lineFeeds (terminated (codes.take index) ++ front) = index := by
  have code_mem : code ∈ codes := by
    have mem : code ∈ codes.drop index := by
      rw [here]
      exact List.mem_cons_self
    exact List.mem_of_mem_drop mem
  have front_feedless : '\n' ∉ front := fun mem => feedless code code_mem (within.mem mem)
  have index_lt : index < codes.length := by
    have lengths := congrArg List.length here
    simp only [List.length_drop, List.length_cons] at lengths
    omega
  have take_feedless : ∀ code ∈ codes.take index, '\n' ∉ code :=
    fun code mem => feedless code (List.mem_of_mem_take mem)
  rw [lineFeeds_append, lineFeeds_terminated take_feedless, lineFeeds_eq_zero front_feedless,
    List.length_take, Nat.min_eq_left (Nat.le_of_lt index_lt), Nat.add_zero]

theorem head_below (below : List (List Char)) :
    ∀ c ∈ (below.flatMap ('\n' :: ·)).head?, isBlank c = true := by
  cases below with
  | nil => simp
  | cons code below =>
      rintro c ⟨⟩
      rfl

/-- The lines of attributes that are all closed are peeled as a scan puts them together. -/
theorem peel_terminated {names : List (List Char)} (codes : List (List Char))
    (peeled : peel (gather codes) = ⟨names, [], true⟩) :
    peel (terminated codes) = ⟨names, [], true⟩ := by
  have same := (words_terminated codes).trans (words_gather codes).symm
  obtain ⟨names_eq, closed_eq, rest_eq⟩ := peel_of_words same
  have solid := (rest_suffix none (terminated codes)).2
  rw [peeled] at names_eq closed_eq rest_eq
  have bare : (peel (terminated codes)).rest = [] :=
    eq_of_suffix_of_squeeze List.suffix_rfl List.nil_suffix solid (by simp) rest_eq
  dsimp only at names_eq closed_eq
  rw [← names_eq, ← closed_eq, ← bare]

namespace Announced

/-- The lines up to the given one are peeled behind the attributes that are remembered. -/
theorem extend {names : List (List Char)} {below : List (List Char)}
    (announced : Announced codes pending attributes state index)
    (here : codes.drop index = line.code :: below)
    (bare : peel (state.codeAt line) = ⟨names, [], true⟩)
    (next_markers : next.markers = state.markers ++ names)
    (unopened : next.opened = none) (fresh : next.skip = 0) :
    Announced codes [] (attributes ++ terminated (pending ++ [line.code])) next (index + 1) where
  opened_eq := unopened
  unclosed := fun nonempty => absurd rfl nonempty
  peeled := by
    rw [codeAt_eq_gather announced.opened_eq] at bare
    rw [peel_append_of_done announced.peeled, peel_terminated _ bare, next_markers]
  above := by
    obtain ⟨front, above_eq⟩ := announced.above
    refine ⟨front, ?_⟩
    rw [terminated_take_succ here, ← above_eq, terminated_append]
    simp [terminated]
  resting := fun skips => absurd fresh skips

/-- A step that records nothing leaves the attributes announced that it remembers. -/
theorem proceed {below : List (List Char)}
    (announced : Announced codes pending attributes state index)
    (here : codes.drop index = line.code :: below) (fresh : state.skip = 0)
    (made : step state line later = .proceed next) :
    ∃ pending attributes, Announced codes pending attributes next (index + 1) := by
  have code_eq : state.codeAt line = gather (pending ++ [line.code]) :=
    codeAt_eq_gather announced.opened_eq
  have next_fresh := (step_skip made).trans fresh
  simp only [step] at made
  split at made
  next blank =>
    obtain rfl := ScanStep.proceed.inj made
    have nothing : state.codeAt line = [] := List.isEmpty_iff.mp blank
    have bare : peel (state.codeAt line) = ⟨[], [], true⟩ := by rw [nothing]; rfl
    have unopened : state.opened = none := by
      cases opened : state.opened with
      | none => rfl
      | some text => simp [ScanState.codeAt, opened] at nothing
    have markers_eq := (List.append_nil state.markers).symm
    exact ⟨_, _, announced.extend here bare markers_eq unopened next_fresh⟩
  next =>
    split at made
    next unfinished =>
      obtain rfl := ScanStep.proceed.inj made
      refine ⟨pending ++ [line.code], attributes, ?_, ?_, announced.peeled, ?_, ?_⟩
      · rw [if_neg (by simp), ← code_eq]
      · intro nonempty
        rw [← code_eq]
        simpa using unfinished
      · obtain ⟨front, above_eq⟩ := announced.above
        refine ⟨front, ?_⟩
        rw [terminated_take_succ here, ← above_eq, terminated_append]
        simp
      · exact fun skips => absurd fresh skips
    next complete =>
      split at made
      next bare =>
        obtain rfl := ScanStep.proceed.inj made
        have bare : peel (state.codeAt line) =
            ⟨(peel (state.codeAt line)).names, [], true⟩ := by
          have closed : (peel (state.codeAt line)).closed = true := by simpa using complete
          rw [← List.isEmpty_iff.mp bare, ← closed]
        exact ⟨_, _, announced.extend here bare rfl rfl next_fresh⟩
      next =>
        obtain rfl := atItem_proceed made
        exact ⟨_, _, .nothing rfl rfl (index + 1)⟩

/-- The attributes that are announced are peeled together with those of the line, whatever stands
below it. -/
theorem peel_below {others : List (List Char)} {item lower : List Char}
    (announced : Announced codes pending attributes state index)
    (peeled : peel (gather (pending ++ [line.code])) = ⟨others, item, true⟩) (nonempty : item ≠ [])
    (lower_blank : ∀ c ∈ lower.head?, isBlank c = true) :
    peel (attributes ++ (terminated pending ++ line.code ++ lower)) =
      ⟨state.markers ++ others, line.codeFrom item ++ lower, true⟩ := by
  have in_trim := (item_suffix announced.unclosed line.code).1
  rw [peeled] at in_trim
  obtain ⟨front, trail, -, codeFrom_eq, -⟩ := line.codeFrom_eq_append in_trim
  have item_kept : line.codeFrom item ≠ [] := by
    rw [codeFrom_eq]
    exact List.append_ne_nil_of_left_ne_nil nonempty trail
  have on_lines := peel_lines announced.unclosed peeled nonempty
  have lines_peeled : peel (terminated pending ++ line.code ++ lower) =
      ⟨others, line.codeFrom item ++ lower, true⟩ := by
    rw [peel] at on_lines
    rw [peel, peelFrom_append (by rw [on_lines]) (fun _ => lower_blank), on_lines,
      if_neg item_kept]
  rw [peel_append_of_done announced.peeled, lines_peeled]

section Items

variable {below names others : List (List Char)} {item : List Char}

/-- What stands in front of an item in the source ends on the line of the item. -/
theorem exists_above (announced : Announced codes pending attributes state index)
    (feedless : ∀ code ∈ codes, '\n' ∉ code) (here : codes.drop index = line.code :: below)
    (peeled : peel (state.codeAt line) = ⟨others, item, true⟩) :
    ∃ above, joinLines codes = above ++ joinLines (line.codeFrom item :: below) ∧
      lineFeeds above = index := by
  rw [codeAt_eq_gather announced.opened_eq] at peeled
  have in_trim := (item_suffix announced.unclosed line.code).1
  rw [peeled] at in_trim
  obtain ⟨front, trail, -, -, code_eq⟩ := line.codeFrom_eq_append in_trim
  refine ⟨terminated (codes.take index) ++ front, ?_, ?_⟩
  · rw [joinLines_of_drop here, joinLines_cons, List.append_assoc, ← List.append_assoc front,
      ← code_eq]
  · exact lineFeeds_above feedless here ⟨line.codeFrom item, code_eq.symm⟩

/-- An attribute that marks an item is announced or stands on its line, and from there on the text
is peeled down to the item. -/
theorem exists_marker (announced : Announced codes pending attributes state index)
    (here : codes.drop index = line.code :: below)
    (peeled : peel (state.codeAt line) = ⟨others, item, true⟩) (nonempty : item ≠ [])
    (named : ∃ name ∈ names, name ∈ state.markers ++ others) :
    ∃ text, text <:+ joinLines codes ∧
      (∃ name ∈ names, (inside? text).bind name? = some name) ∧
      (peel text).rest = joinLines (line.codeFrom item :: below) := by
  rw [codeAt_eq_gather announced.opened_eq] at peeled
  have whole := joinLines_of_drop here
  have lower_blank := head_below below
  rw [joinLines_cons]
  generalize below.flatMap ('\n' :: ·) = lower at lower_blank whole ⊢
  have all_peeled := announced.peel_below peeled nonempty lower_blank
  obtain ⟨name, name_mem, named⟩ := named
  have in_names : name ∈ (peelFrom none
      (attributes ++ (terminated pending ++ line.code ++ lower))).names := by
    rw [← peel, all_peeled]
    exact named
  obtain ⟨text, behind, begins, rest_eq, -⟩ := exists_of_mem_names in_names
  rw [← peel, all_peeled] at rest_eq
  refine ⟨text, behind.trans ?_, ⟨name, name_mem, begins⟩, rest_eq⟩
  obtain ⟨above, above_eq⟩ := announced.above
  refine ⟨above, ?_⟩
  rw [whole, ← above_eq]
  simp

/-- An item begins what stands from its column on, and behind it stands a blank or nothing. -/
theorem exists_behind_item (announced : Announced codes pending attributes state index)
    (peeled : peel (state.codeAt line) = ⟨others, item, true⟩) (below : List (List Char)) :
    item <+: line.codeFrom item ∧ ∃ trail, (∀ c ∈ trail.head?, isBlank c = true) ∧
      joinLines (line.codeFrom item :: below) = item ++ trail := by
  rw [codeAt_eq_gather announced.opened_eq] at peeled
  have in_trim := (item_suffix announced.unclosed line.code).1
  rw [peeled] at in_trim
  obtain ⟨front, trail, trail_blank, codeFrom_eq, -⟩ := line.codeFrom_eq_append in_trim
  refine ⟨⟨trail, codeFrom_eq.symm⟩, trail ++ below.flatMap ('\n' :: ·), ?_, ?_⟩
  · cases trail with
    | nil => exact head_below below
    | cons c trail =>
        rintro d ⟨⟩
        exact trail_blank c List.mem_cons_self
  · rw [joinLines_cons, codeFrom_eq, List.append_assoc]

/-- An item is marked if an attribute is announced that marks it, or stands in front of it on its
line. -/
theorem marked {header : Pattern} (announced : Announced codes pending attributes state index)
    (feedless : ∀ code ∈ codes, '\n' ∉ code) (here : codes.drop index = line.code :: below)
    (peeled : peel (state.codeAt line) = ⟨others, item, true⟩) (nonempty : item ≠ [])
    (named : ∃ name ∈ names, name ∈ state.markers ++ others)
    (headed : ∀ more, (∀ c ∈ more.head?, isBlank c = true) →
      header.isHeadOf (item ++ more) = true) :
    Marked codes names header (index + 1) := by
  obtain ⟨above, whole, above_feeds⟩ := announced.exists_above feedless here peeled
  obtain ⟨text, behind, begins, rest_eq⟩ := announced.exists_marker here peeled nonempty named
  obtain ⟨-, trail, trail_blank, header_eq⟩ := announced.exists_behind_item peeled below
  refine ⟨above, text, behind, ⟨begins, ?_⟩, by rw [rest_eq, whole], by rw [above_feeds]⟩
  rw [rest_eq, header_eq]
  exact headed trail trail_blank

end Items

end Announced

/-! ## Recorded declarations -/

/-- A scan comes to a line and makes the given step there. -/
inductive Reached (codes : List (List Char)) (made : ScanStep) : Prop where
  | intro {pending : List (List Char)} {attributes : List Char} {state : ScanState} {line : Line}
      {later : List Line} {index : Nat} (announced : Announced codes pending attributes state index)
      (here : codes.drop index = line.code :: later.map (·.code))
      (number_eq : line.number = index + 1) (step_eq : step state line later = made) :
      Reached codes made

/-- Every declaration that a scan records is recorded where the scan comes to its line. -/
theorem reached_scanFrom (announced : Announced codes pending attributes state index)
    (numbered : Line.Numbered (index + 1) lines) (here : codes.drop index = lines.map (·.code))
    (path : String) :
    (∀ struct ∈ (scanFrom path state lines).structs,
      ∃ last, Reached codes (.struct struct last)) ∧
    ∀ block ∈ (scanFrom path state lines).impls, ∃ last, Reached codes (.block block last) := by
  fun_induction scanFrom path state lines generalizing index pending attributes with
  | case1 state => exact ⟨List.forall_mem_nil _, List.forall_mem_nil _⟩
  | case2 state line later skip skip_eq ih =>
      obtain ⟨rfl, rfl⟩ := announced.resting (by rw [skip_eq]; exact Nat.succ_ne_zero skip)
      have unmarked : state.markers = [] := (congrArg Peeled.names announced.peeled).symm
      have opened_eq : { state with skip }.opened = none := announced.opened_eq
      exact ih (.nothing opened_eq unmarked _) numbered.2.2.2 (drop_below here)
  | case3 state line later skip_eq next step_eq ih =>
      obtain ⟨pending, attributes, announced⟩ := announced.proceed here skip_eq step_eq
      exact ih announced numbered.2.2.2 (drop_below here)
  | case4 state line later skip_eq fault step_eq =>
      exact ⟨List.forall_mem_nil _, List.forall_mem_nil _⟩
  | case5 state line later skip_eq struct last step_eq ih =>
      obtain ⟨structs, blocks⟩ :=
        ih (.behind state last (index + 1)) numbered.2.2.2 (drop_below here)
      have recorded : Reached codes (.struct struct last) :=
        .intro announced here numbered.1 step_eq
      exact ⟨List.forall_mem_cons.mpr ⟨⟨last, recorded⟩, structs⟩, blocks⟩
  | case6 state line later skip_eq block last step_eq ih =>
      obtain ⟨structs, blocks⟩ :=
        ih (.behind state last (index + 1)) numbered.2.2.2 (drop_below here)
      have recorded : Reached codes (.block block last) :=
        .intro announced here numbered.1 step_eq
      exact ⟨structs, List.forall_mem_cons.mpr ⟨⟨last, recorded⟩, blocks⟩⟩

theorem reached_scan {texts : List (List Char)} (feedless : ∀ text ∈ texts, '\n' ∉ text)
    (path : String) :
    (∀ struct ∈ (scan path (Line.ofTexts texts)).structs,
      ∃ last, Reached (mask texts) (.struct struct last)) ∧
    ∀ block ∈ (scan path (Line.ofTexts texts)).impls,
      ∃ last, Reached (mask texts) (.block block last) := by
  refine reached_scanFrom (.nothing rfl rfl 0) (Line.numbered_ofTexts feedless) ?_ path
  rw [Line.map_code_ofTexts]
  rfl

/-- A struct that is recorded where the scan comes to its line stands behind its marker. -/
theorem Reached.marked_struct {struct : Struct} (reached : Reached codes (.struct struct last))
    (feedless : ∀ code ∈ codes, '\n' ∉ code) :
    Marked codes typeMarkers Struct.header struct.line := by
  obtain ⟨announced, here, number_eq, step_eq⟩ := reached
  obtain ⟨⟨names, item, closed⟩, peeled, rfl, marker, found, matched, read⟩ := step_struct step_eq
  obtain ⟨fields, -, rfl⟩ := Struct.read_eq_ok read
  have headed : Struct.header.isHeadOf item = true := by
    rw [Pattern.isHeadOf, matched]
    rfl
  have nonempty : item ≠ [] := by
    rintro rfl
    contradiction
  rw [number_eq]
  refine announced.marked feedless here peeled.symm nonempty ?_ ?_
  · simpa using marker
  · exact fun more _ => Pattern.isHeadOf_append rfl headed more

/-- A block that is recorded where the scan comes to its line stands behind its marker. -/
theorem Reached.marked_block {block : ImplBlock} (reached : Reached codes (.block block last))
    (feedless : ∀ code ∈ codes, '\n' ∉ code) :
    Marked codes [implMarker] ImplBlock.header block.line := by
  obtain ⟨announced, here, number_eq, step_eq⟩ := reached
  obtain ⟨⟨names, item, closed⟩, peeled, rfl, marker, headed, read⟩ := step_block step_eq
  obtain ⟨before, after, inner, tail, functions, -, -, -, -, rfl⟩ := ImplBlock.read_eq_ok read
  have nonempty : item ≠ [] := by
    rintro rfl
    contradiction
  rw [number_eq]
  refine announced.marked feedless here peeled.symm nonempty ⟨implMarker, ?_, marker⟩ ?_
  · exact List.mem_singleton_self _
  · exact fun more blank => ImplBlock.isHeadOf_append headed blank

/-- Every declaration that is found in a source stands there behind its marker. -/
theorem marked_scan {texts : List (List Char)} (feedless : ∀ text ∈ texts, '\n' ∉ text)
    (path : String) :
    (∀ struct ∈ (scan path (Line.ofTexts texts)).structs,
      Marked (mask texts) typeMarkers Struct.header struct.line) ∧
    ∀ block ∈ (scan path (Line.ofTexts texts)).impls,
      Marked (mask texts) [implMarker] ImplBlock.header block.line := by
  have masked_feedless := Mask.feedless_linesFrom feedless .code
  obtain ⟨structs, blocks⟩ := reached_scan feedless path
  refine ⟨fun struct mem => ?_, fun block mem => ?_⟩
  · obtain ⟨last, reached⟩ := structs struct mem
    exact reached.marked_struct masked_feedless
  · obtain ⟨last, reached⟩ := blocks block mem
    exact reached.marked_block masked_feedless

end Outline
end SorobanLint
