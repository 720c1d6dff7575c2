import SorobanLint.Proofs.Brackets.Split
import SorobanLint.Proofs.Declared.Field
import SorobanLint.Proofs.Ending
import SorobanLint.Proofs.Masked.Function
import SorobanLint.Rule.Basic

/-!
# Where parameters are declared

A parameter is read from a part of its function's parameter list between two commas: behind blanks,
with or without `mut`, stands the name, and behind that the colon (`Param.exists_parts`).  A rule
has only the function, and looks there for the first word with the name that has a colon behind it
(`Function.paramLine_of_code_eq`).  That is the declaration unless a text in front of it looks the
same (`Contract.paramLine_of_parse`), as a path does in the type of an earlier parameter
(`Contract.paramLine_ne_behind_path`).
-/

namespace SorobanLint

open Text

namespace Param

/-! ## The parts of an entry -/

/-- What stands in an entry of a parameter list in front of the name: blanks, or `mut` between
blanks. -/
inductive Lead : List Char → Prop where
  | blanks {blanks : List Char} (blank : ∀ c ∈ blanks, isBlank c = true) : Lead blanks
  | mutable {before gap : List Char} (before_blank : ∀ c ∈ before, isBlank c = true)
      (gap_blank : ∀ c ∈ gap, isBlank c = true) (nonempty : gap ≠ []) :
      Lead (before ++ ("mut".toList ++ gap))

/-- An entry of a parameter list and the declaration in it. -/
structure Parts (entry : List Char) (param : Param) where
  /-- What stands in front of the name. -/
  lead : List Char
  /-- The blanks between the name and its colon. -/
  gap : List Char
  /-- The type, and what follows it. -/
  behind : List Char
  entry_eq : entry = lead ++ (param.name.toList ++ (gap ++ ':' :: behind))
  leading : Lead lead
  gap_blank : ∀ c ∈ gap, isBlank c = true
  read : parse? entry = some param

variable {entry : List Char} {param : Param}

theorem Lead.edge {lead : List Char} (leading : Lead lead) :
    ∀ c ∈ lead.getLast?, isBlank c = true := by
  cases leading with
  | blanks blank => exact fun c last => blank c (List.mem_of_mem_getLast? last)
  | @mutable before gap before_blank gap_blank nonempty =>
      intro c last
      rw [List.getLast?_append_of_ne_nil _ (by simp),
        List.getLast?_append_of_ne_nil _ nonempty] at last
      exact gap_blank c (List.mem_of_mem_getLast? last)

theorem parse?_trim (entry : List Char) : parse? (trim entry) = parse? entry := by
  rw [parse?, parse?, squeeze, words_trim, ← squeeze]

/-- The name of a parameter is what stands in front of the colon, or what follows `mut` there. -/
theorem parse?_eq_some (read : parse? entry = some param) :
    ∃ behind, entry = entry.takeWhile (· ≠ ':') ++ ':' :: behind ∧
      ∃ gap, words (gap ++ param.name.toList) = words (entry.takeWhile (· ≠ ':')) ∧
        (gap = [] ∨ ∃ blanks, gap = "mut".toList ++ blanks ∧ blanks ≠ [] ∧
          ∀ c ∈ blanks, isBlank c = true) := by
  simp only [parse?] at read
  split at read
  · contradiction
  · split at read
    · contradiction
    next c tail dropped =>
      have colon : ':' ∈ entry := by
        have some_colon : ¬∀ c ∈ squeeze entry, decide (c ≠ ':') = true := by
          intro none_colon
          rw [List.dropWhile_eq_nil_iff.mpr none_colon] at dropped
          contradiction
        have squeezed : ':' ∈ squeeze entry := by simpa using some_colon
        have solid : ':' ∈ withoutBlanks (squeeze entry) :=
          List.mem_filter.mpr ⟨squeezed, by decide⟩
        rw [withoutBlanks_squeeze] at solid
        exact (List.mem_filter.mp solid).1
      obtain ⟨behind, entry_eq⟩ := exists_of_mem_colon colon
      refine ⟨behind, entry_eq, ?_⟩
      have words_eq : words (trim ((squeeze entry).takeWhile (· ≠ ':'))) =
          words (entry.takeWhile (· ≠ ':')) := by
        rw [words_trim, words_takeWhile_squeeze]
        intro c blank
        simpa using ne_of_isBlank blank (by decide)
      rw [← words_eq]
      generalize trim ((squeeze entry).takeWhile (· ≠ ':')) = name at read ⊢
      split at read
      next found matched =>
        obtain ⟨reach, first, rfl⟩ := Option.map_eq_some_iff.mp matched
        have after_eq : param.name.toList = reach.place.after := by
          rw [← Option.some.inj read]
          exact String.toList_ofList
        obtain ⟨mark, name_eq, -, -, gap, rfl, rfl, reads⟩ :=
          Pattern.between_of_mem_ends (List.mem_of_mem_head? first)
        change name = "mut".toList ++ gap ++ reach.place.after at name_eq
        refine ⟨"mut".toList ++ gap, ?_, .inr ⟨gap, rfl, ?_, Pattern.blank_of_reads_gap reads⟩⟩
        · rw [after_eq, ← name_eq]
        · obtain ⟨-, s, rfl, ⟨c, rfl, -⟩, -⟩ := reads
          exact List.cons_ne_nil c s
      next =>
        obtain rfl := Option.some.inj read
        exact ⟨[], by simp, .inl rfl⟩

/-- A parameter is declared in its entry behind blanks, with or without `mut`. -/
theorem exists_parts (read : parse? entry = some param)
    (named : isIdentifier param.name.toList = true) : Nonempty (Parts entry param) := by
  obtain ⟨behind, entry_eq, mark, words_eq, mark_shape⟩ := parse?_eq_some read
  have solid := solid_of_isIdentifier named
  obtain ⟨c, tail, name_eq, -, -⟩ := exists_of_isIdentifier named
  have nonempty : param.name.toList ≠ [] := name_eq ▸ List.cons_ne_nil c tail
  have name_words : words param.name.toList = [param.name.toList] :=
    runs_of_forall solid nonempty
  generalize entry.takeWhile (· ≠ ':') = front at entry_eq words_eq
  rcases mark_shape with rfl | ⟨blanks, rfl, some_blanks, blank⟩
  · rw [List.nil_append, name_words] at words_eq
    obtain ⟨lead, gap, rfl, lead_blank, -, rest_words⟩ := exists_of_words_eq_cons words_eq.symm
    exact ⟨⟨lead, gap, behind, by simpa using entry_eq, .blanks lead_blank,
      blank_of_words_eq_nil rest_words, read⟩⟩
  · have mark_words : words ("mut".toList ++ blanks ++ param.name.toList) =
        ["mut".toList, param.name.toList] := by
      obtain ⟨b, blanks, rfl⟩ := List.exists_cons_of_ne_nil some_blanks
      rw [List.forall_mem_cons] at blank
      rw [List.append_assoc, List.cons_append, words_eq_runs, runs_append_cons blank.1,
        ← words_eq_runs, ← words_eq_runs, words_blank_append blank.2, name_words]
      rfl
    rw [mark_words] at words_eq
    obtain ⟨before, rest, rfl, before_blank, parted, rest_words⟩ :=
      exists_of_words_eq_cons words_eq.symm
    obtain ⟨gap, behind_name, rfl, gap_blank, -, behind_words⟩ :=
      exists_of_words_eq_cons rest_words
    have some_gap : gap ≠ [] := by
      rintro rfl
      have blank_head := parted c (by rw [name_eq]; rfl)
      have solid_head := solid c (by rw [name_eq]; exact List.mem_cons_self)
      simp [solid_head] at blank_head
    exact ⟨⟨before ++ ("mut".toList ++ gap), behind_name, behind, by simpa using entry_eq,
      .mutable before_blank gap_blank some_gap, blank_of_words_eq_nil behind_words, read⟩⟩

/-- A part of a parameter list that declares the parameter. -/
structure Site (list : List Char) (param : Param) where
  /-- The part, between two commas. -/
  span : Span
  span_mem : span ∈ Bracket.spans (· = ',') list
  /-- What the part consists of. -/
  parts : Parts (span.of list) param

namespace Site

variable {list : List Char}

/-- What stands in the list in front of the name. -/
def front (site : Site list param) : List Char :=
  list.take site.span.start ++ site.parts.lead

/-- What stands in the list behind the name. -/
def behind (site : Site list param) : List Char :=
  site.parts.gap ++ ':' :: (site.parts.behind ++ list.drop site.span.stop)

theorem list_eq (site : Site list param) :
    list = site.front ++ (param.name.toList ++ site.behind) := by
  have whole := Bracket.append_of_mem_spans site.span_mem
  rw [site.parts.entry_eq] at whole
  rw [front, behind]
  simpa using whole.symm

/-- The name stands inside its entry. -/
theorem front_prefix (site : Site list param) : site.front <+: list.take site.span.stop := by
  have entry_eq := congrArg (list.take site.span.start ++ ·) site.parts.entry_eq
  rw [Bracket.take_append_of site.span_mem] at entry_eq
  rw [entry_eq, front, ← List.append_assoc]
  exact List.prefix_append _ _

/-- In front of the name stands a blank, a comma, or the parenthesis that opens the list. -/
theorem edge_before (site : Site list param) (opening : List Char) :
    ∀ c ∈ (opening ++ '(' :: site.front).getLast?, isWord c = false ∧ c ≠ '#' := by
  have lead_edge : ∀ c ∈ site.parts.lead.getLast?, isWord c = false ∧ c ≠ '#' :=
    fun c last => ⟨isWord_of_isBlank (site.parts.leading.edge c last),
      ne_of_isBlank (site.parts.leading.edge c last) (by decide)⟩
  have comma : ∀ c ∈ (list.take site.span.start).getLast?, isWord c = false ∧ c ≠ '#' := by
    intro c last
    obtain rfl := Bracket.eq_of_last_before_span site.span_mem c last
    decide
  have paren : ∀ c ∈ (opening ++ ['(']).getLast?, isWord c = false ∧ c ≠ '#' := by
    rw [List.getLast?_concat]
    rintro c ⟨⟩
    decide
  rw [front, List.append_cons]
  exact forall_getLast?_append paren (forall_getLast?_append comma lead_edge)

/-- No word goes on behind a name, since a blank or the colon follows. -/
theorem edge_behind (site : Site list param) {rest : List Char} :
    ∀ c ∈ (site.behind ++ rest).head?, isWord c = false := by
  rw [behind, List.append_assoc]
  exact edge_of_gap (by decide) site.parts.gap_blank

end Site

/-- Every parameter with a name is declared in an entry of the list. -/
theorem exists_site {list : List Char} (mem : param ∈ readAll list)
    (named : isIdentifier param.name.toList = true) : Nonempty (Site list param) := by
  obtain ⟨entry, entry_mem, read⟩ := List.mem_filterMap.mp mem
  obtain ⟨slice, slice_mem, rfl⟩ := List.mem_map.mp (List.mem_of_mem_filter entry_mem)
  rw [parse?_trim] at read
  rw [← Bracket.map_of_spans] at slice_mem
  obtain ⟨span, span_mem, rfl⟩ := List.mem_map.mp slice_mem
  obtain ⟨parts⟩ := exists_parts read named
  exact ⟨⟨span, span_mem, parts⟩⟩

/-- Parameters are declared in the order in which they are read. -/
theorem pairwise_sites (list : List Char) :
    (readAll list).Pairwise fun a b =>
      isIdentifier a.name.toList = true → isIdentifier b.name.toList = true →
        ∃ (first : Site list a) (second : Site list b), first.front <+: second.front := by
  have spans_ordered := (Bracket.tiles_spans ',' list).pairwise
  rw [readAll, Bracket.splitCommas, Bracket.splitWhere, ← Bracket.map_of_spans, List.map_map,
    List.pairwise_filterMap]
  apply List.Pairwise.filter
  refine List.pairwise_map.mpr (spans_ordered.imp_of_mem ?_)
  intro upper lower upper_mem lower_mem apart a a_read b b_read a_named b_named
  rw [Function.comp_apply, parse?_trim] at a_read b_read
  obtain ⟨a_parts⟩ := exists_parts a_read a_named
  obtain ⟨b_parts⟩ := exists_parts b_read b_named
  let first : Site list a := ⟨upper, upper_mem, a_parts⟩
  let second : Site list b := ⟨lower, lower_mem, b_parts⟩
  refine ⟨first, second, ?_⟩
  -- the name stands in its own entry, which ends in front of the next one
  have ahead := first.front_prefix.trans (List.take_prefix_take_left apart)
  exact ahead.trans (List.prefix_append _ _)

/-! ## The search for a declaration -/

/-- The name of a parameter as a word that begins here, with a colon behind it. -/
def declaration (param : Param) : Pattern :=
  .all [.edge, .text param.name.toList, .spaces, ":"]

variable {before front s after more : List Char}

theorem reads_declaration_iff (named : isIdentifier param.name.toList = true) :
    param.declaration.Reads before s after ↔ before.head?.any isWord = false ∧
      ∃ blanks, s = param.name.toList ++ (blanks ++ [':']) ∧ ∀ c ∈ blanks, isBlank c = true := by
  obtain ⟨c, tail, name_eq, start, -⟩ := exists_of_isIdentifier named
  have word : isWord c = true := isWord_of_isIdentRest (isIdentRest_of_isIdentStart start)
  have edge_iff (rest : List Char) :
      Place.atWordEdge ⟨before, param.name.toList ++ rest⟩ = true ↔
        before.head?.any isWord = false := by
    rw [Place.atWordEdge, name_eq]
    simp [word]
  constructor
  · rintro ⟨-, -, rfl, ⟨rfl, edge⟩, -, -, rfl, rfl, blanks, -, rfl, blank, -, -, rfl, rfl, rfl⟩
    rw [List.append_assoc, edge_iff] at edge
    exact ⟨edge, blanks, by simp, blank⟩
  · rintro ⟨outside, blanks, rfl, blank⟩
    have edge := (edge_iff (blanks ++ [':'] ++ after)).mpr outside
    rw [← List.append_assoc] at edge
    exact ⟨[], _, rfl, ⟨rfl, edge⟩, _, blanks ++ [':'], rfl, rfl, blanks, [':'], rfl, blank, [':'],
      [], rfl, rfl, rfl⟩

/-- A text that does not hold the name does not look like the declaration. -/
theorem occursIn_declaration_eq_false {text : List Char}
    (named : isIdentifier param.name.toList = true) (absent : ¬param.name.toList <:+: text) :
    param.declaration.occursIn text = false := by
  refine Bool.eq_false_iff.mpr fun occurs => absent ?_
  obtain ⟨front, s, rest, rfl, reads⟩ := (Pattern.occursIn_iff text).mp occurs
  obtain ⟨-, blanks, rfl, -⟩ := (reads_declaration_iff named).mp reads
  exact ⟨front, blanks ++ [':'] ++ rest, by simp⟩

/-- No declaration reaches into the name of a parameter from what stands in front of it. -/
theorem prefix_of_reads_declaration (named : isIdentifier param.name.toList = true)
    (edge : ∀ c ∈ front.getLast?, isWord c = false ∧ c ≠ '#') (nonempty : front ≠ [])
    (reads : param.declaration.Reads before s after)
    (whole : front ++ (param.name.toList ++ more) = s ++ after) : s <+: front := by
  obtain ⟨c, tail, name_eq, start, inside⟩ := exists_of_isIdentifier named
  obtain ⟨-, blanks, s_eq, blank⟩ := (reads_declaration_iff named).mp reads
  rcases List.append_eq_append_iff.mp whole with ⟨x, rfl, later⟩ | ⟨x, rfl, -⟩
  · cases x with
    | nil => rw [List.append_nil]
    | cons d x =>
        rw [name_eq] at later
        obtain ⟨rfl, -⟩ := List.cons.inj later
        rcases List.append_eq_append_iff.mp s_eq with ⟨y, name_front, -⟩ | ⟨y, -, behind⟩
        · -- the name would hold the last character in front
          obtain ⟨outside, unmarked⟩ := edge _ (List.getLast?_eq_some_getLast nonempty)
          have last_mem : front.getLast nonempty ∈ param.name.toList := by
            rw [name_front]
            exact List.mem_append_left y (List.getLast_mem nonempty)
          rcases inside _ last_mem with word | mark
          · simp [isWord_of_isIdentRest word] at outside
          · exact absurd mark unmarked
        · -- the name would begin with a blank or a colon
          have head_mem : c ∈ blanks ++ [':'] := by
            rw [behind]
            exact List.mem_append_right y List.mem_cons_self
          have word := isIdentRest_of_isIdentStart start
          rcases List.mem_append.mp head_mem with in_gap | colon
          · exact absurd (blank c in_gap) (by simp [isBlank_of_isIdentRest word])
          · obtain rfl := List.mem_singleton.mp colon
            contradiction
  · exact List.prefix_append s x

theorem isSome_matchAt?_declaration (named : isIdentifier param.name.toList = true)
    (edge : ∀ c ∈ front.getLast?, isWord c = false) {gap : List Char}
    (gap_blank : ∀ c ∈ gap, isBlank c = true) (more : List Char) :
    (param.declaration.matchAt?
      ⟨front.reverse, param.name.toList ++ (gap ++ ':' :: more)⟩).isSome = true := by
  have reads : param.declaration.Reads front.reverse
      (param.name.toList ++ (gap ++ [':'])) more :=
    (reads_declaration_iff named).mpr ⟨Pattern.outside_of_getLast? edge, gap, rfl, gap_blank⟩
  exact (Pattern.isSome_matchAt?_iff _ _).mpr ⟨_, more, by simp, reads⟩

/-- The search passes a front in which nothing looks like the declaration. -/
theorem search?_declaration (named : isIdentifier param.name.toList = true)
    (edge : ∀ c ∈ front.getLast?, isWord c = false ∧ c ≠ '#')
    (absent : param.declaration.occursIn front = false) (more : List Char) :
    param.declaration.search? (front ++ (param.name.toList ++ more)) =
      param.declaration.searchFrom? front.reverse (param.name.toList ++ more) := by
  rw [Pattern.search?, Pattern.searchFrom?_append, List.append_nil]
  -- a match that begins in front ends there, so it would occur in the front alone
  intro s t front_eq nonempty
  refine Option.not_isSome_iff_eq_none.mp fun begins => ?_
  obtain ⟨u, after, whole, reads⟩ := (Pattern.isSome_matchAt?_iff _ _).mp begins
  have edge_t : ∀ c ∈ t.getLast?, isWord c = false ∧ c ≠ '#' := by
    rwa [front_eq, List.getLast?_append_of_ne_nil s nonempty] at edge
  obtain ⟨v, rfl⟩ := prefix_of_reads_declaration named edge_t nonempty reads whole
  rw [List.append_nil] at reads
  have occurs : param.declaration.occursIn front = true :=
    (Pattern.occursIn_iff front).mpr ⟨s, u, v, front_eq,
      (reads_declaration_iff named).mpr ((reads_declaration_iff named).mp reads)⟩
  simp [absent] at occurs

end Param

namespace Function

variable {function : Function} {param : Param} {front gap more : List Char}

theorem paramLine_eq (function : Function) (param : Param) :
    function.paramLine param = match param.declaration.search? function.code with
      | some found =>
        function.line + lineFeeds (function.definition.toList.take found.start.offset)
      | none => function.line := rfl

theorem paramLine_of_search? {found : Match}
    (aligned : ∀ n, lineFeeds (function.definition.toList.take n) =
      lineFeeds (function.code.take n))
    (searched : param.declaration.search? function.code = some found)
    (leading : front <+: function.code) (within : found.start.offset ≤ front.length) :
    function.paramLine param = function.line + lineFeeds (front.take found.start.offset) := by
  obtain ⟨behind, code_eq⟩ := leading
  rw [paramLine_eq, searched]
  dsimp only
  rw [aligned, ← code_eq, List.take_append_of_le_length within]

/-- Where the code of a function declares a parameter, the parameter is looked for no further; and
it is found there if no text in front looks like its declaration. -/
theorem paramLine_of_code_eq
    (aligned : ∀ n, lineFeeds (function.definition.toList.take n) =
      lineFeeds (function.code.take n))
    (named : isIdentifier param.name.toList = true)
    (edge : ∀ c ∈ front.getLast?, isWord c = false ∧ c ≠ '#')
    (gap_blank : ∀ c ∈ gap, isBlank c = true)
    (code_eq : function.code = front ++ (param.name.toList ++ (gap ++ ':' :: more))) :
    function.paramLine param ≤ function.line + lineFeeds front ∧
      (param.declaration.occursIn front = false →
        function.paramLine param = function.line + lineFeeds front) := by
  have leading : front <+: function.code := code_eq ▸ List.prefix_append front _
  have matched := Param.isSome_matchAt?_declaration named (fun c last => (edge c last).1)
    gap_blank more
  constructor
  · obtain ⟨found, searched, within⟩ :=
      Pattern.exists_searchFrom? (by rwa [← List.append_nil front.reverse] at matched)
    rw [← code_eq] at searched
    rw [List.append_nil, List.length_reverse] at within
    rw [paramLine_of_search? aligned searched leading within]
    have feeds_le := lineFeeds_le_of_prefix (List.take_prefix found.start.offset front)
    omega
  · intro absent
    obtain ⟨found, here⟩ := Option.isSome_iff_exists.mp matched
    have searched : param.declaration.search? function.code = some found := by
      rw [code_eq, Param.search?_declaration named edge absent]
      exact Pattern.searchFrom?_of_matchAt? here
    have start_eq : found.start.offset = front.length := by
      rw [Pattern.start_of_matchAt? here, Place.offset, List.length_reverse]
    rw [paramLine_of_search? aligned searched leading (Nat.le_of_eq start_eq), start_eq,
      List.take_length]

/-! ## The code of a function -/

namespace Frame

variable {texts : List (List Char)}

/-- What stands in front of the parameter list on the lines of the function. -/
def head (frame : Frame texts function) : List Char :=
  frame.attributes ++ (frame.title ++ frame.generics)

/-- What stands in front of the parameter list in the source. -/
def opening (frame : Frame texts function) : List Char :=
  terminated ((mask texts).take (frame.line.number - 1)) ++ frame.head

theorem text_eq_opening (frame : Frame texts function) :
    joinLines (mask texts) = frame.opening ++ '(' :: (frame.list ++ ')' :: frame.after) := by
  rw [frame.text_eq, opening, head, Heading.lead]
  simp only [List.append_assoc]

/-- A parameter stands in its entry in the masked text. -/
theorem text_eq_site (frame : Frame texts function) (site : Param.Site frame.list param) :
    joinLines (mask texts) = frame.opening ++ '(' :: site.front ++
      (param.name.toList ++ (site.behind ++ ')' :: frame.after)) := by
  have list_eq := congrArg (frame.opening ++ '(' :: · ++ ')' :: frame.after) site.list_eq
  rw [frame.text_eq_opening]
  simpa using list_eq

/-- Nothing looks like the declaration of a parameter in whose name there is a character that stands
nowhere else. -/
theorem occursIn_declaration_of_count {c : Char} (frame : Frame texts function)
    (site : Param.Site frame.list param) (named : isIdentifier param.name.toList = true)
    (mem : c ∈ param.name.toList) (once : (joinLines (mask texts)).count c = 1) :
    param.declaration.occursIn (frame.head ++ '(' :: site.front) = false := by
  refine Param.occursIn_declaration_eq_false named fun within => ?_
  have before : c ∈ frame.opening ++ '(' :: site.front := by
    rw [opening, List.append_assoc]
    exact List.mem_append_right _ (within.subset mem)
  have behind : c ∈ param.name.toList ++ (site.behind ++ ')' :: frame.after) :=
    List.mem_append_left _ mem
  rw [frame.text_eq_site site, List.count_append] at once
  have before_pos := List.count_pos_iff.mpr before
  have behind_pos := List.count_pos_iff.mpr behind
  omega

/-- The line of a function exists. -/
theorem number_bounds (feedless : ∀ text ∈ texts, '\n' ∉ text) (frame : Frame texts function) :
    1 ≤ frame.line.number ∧ frame.line.number ≤ (mask texts).length := by
  have bounds := (Line.numbered_ofTexts feedless).bounds frame.line_mem
  have length_eq : (mask texts).length = (Line.ofTexts texts).length := by
    rw [← Line.map_code_ofTexts, List.length_map]
  omega

/-- The source from the first line of the function on. -/
theorem joinLines_drop (feedless : ∀ text ∈ texts, '\n' ∉ text) (frame : Frame texts function) :
    joinLines ((mask texts).drop (frame.line.number - 1)) =
      frame.head ++ '(' :: (frame.list ++ ')' :: frame.after) := by
  have bounds := frame.number_bounds feedless
  have whole := frame.text_eq_opening
  have cut := List.take_append_drop (frame.line.number - 1) (mask texts)
  have some_lines : (mask texts).drop (frame.line.number - 1) ≠ [] := by
    rw [Ne, List.drop_eq_nil_iff]
    omega
  obtain ⟨first, below, drop_eq⟩ := List.exists_cons_of_ne_nil some_lines
  rw [drop_eq] at cut ⊢
  rw [← cut, joinLines_append, opening, List.append_assoc] at whole
  exact List.append_cancel_left whole

theorem line_eq (feedless : ∀ text ∈ texts, '\n' ∉ text) (frame : Frame texts function)
    (front : List Char) :
    function.line + lineFeeds (frame.head ++ front) = lineFeeds (frame.opening ++ front) + 1 := by
  have bounds := frame.number_bounds feedless
  have above_feedless : ∀ code ∈ (mask texts).take (frame.line.number - 1), '\n' ∉ code :=
    fun code mem => Mask.feedless_linesFrom feedless .code code (List.mem_of_mem_take mem)
  rw [frame.number_eq, opening, List.append_assoc, lineFeeds_append (terminated _),
    lineFeeds_terminated above_feedless, List.length_take_of_le (by omega)]
  omega

/-- A function does not end above its opener. -/
theorem Ends.le_last {frame : Frame texts function} (ends : frame.Ends) :
    (lineFeeds frame.front + 1 : Int) ≤ function.extent.last := by
  obtain ⟨-, opener⟩ := Bracket.append_of_bodyStart? frame.started
  rcases opener with brace | semicolon
  · obtain ⟨inner, rest, -, -, -, last_eq⟩ := ends.at_brace brace
    rw [last_eq, lineFeeds_append]
    omega
  · rw [ends.at_semicolon semicolon]

/-- The code of a function holds its parameter list. -/
theorem Ends.exists_code_eq {frame : Frame texts function} (ends : frame.Ends)
    (feedless : ∀ text ∈ texts, '\n' ∉ text)
    (code_eq : function.code = joinLines (function.extent.slice (mask texts))) :
    ∃ more, function.code = frame.head ++ '(' :: (frame.list ++ ')' :: more) := by
  have bounds := frame.number_bounds feedless
  have masked_feedless : ∀ code ∈ mask texts, '\n' ∉ code :=
    Mask.feedless_linesFrom feedless .code
  have le_last := ends.le_last
  have last_le := ends.occupies.last_le
  have first_eq : function.extent.first = frame.line.number := frame.number_eq
  have feeds_le : lineFeeds (frame.head ++ '(' :: (frame.list ++ [')'])) + frame.line.number ≤
      function.extent.last := by
    have front_eq : frame.front = (frame.opening ++ '(' :: (frame.list ++ [')'])) ++
        frame.opener.before := by
      rw [front, opening, head, Heading.lead]
      simp
    have line_eq := frame.line_eq feedless ('(' :: (frame.list ++ [')']))
    rw [front_eq, lineFeeds_append] at le_last
    rw [frame.number_eq] at line_eq
    omega
  have leading : frame.head ++ '(' :: (frame.list ++ [')']) <+:
      joinLines ((mask texts).drop (function.extent.first - 1).toNat) := by
    have start_eq : (function.extent.first - 1).toNat = frame.line.number - 1 := by omega
    rw [start_eq, frame.joinLines_drop feedless]
    exact ⟨frame.after, by simp⟩
  rw [← List.take_append_drop (function.extent.last - function.extent.first + 1).toNat
    ((mask texts).drop _)] at leading
  rw [code_eq]
  obtain ⟨more, whole⟩ := prefix_joinLines
    (fun code mem => masked_feedless code (List.mem_of_mem_drop (List.mem_of_mem_take mem)))
    leading (by
      rw [List.length_take, List.length_drop, length_mask_eq]
      omega)
  exact ⟨more, by rw [Extent.slice, ← whole]; simp⟩

/-- As many characters of a function hold as many line feeds as those of its code. -/
theorem Ends.lineFeeds_take {frame : Frame texts function} (ends : frame.Ends)
    (feedless : ∀ text ∈ texts, '\n' ∉ text)
    (code_eq : function.code = joinLines (function.extent.slice (mask texts))) (n : Nat) :
    lineFeeds (function.definition.toList.take n) = lineFeeds (function.code.take n) := by
  have lengths : (function.extent.slice texts).map List.length =
      (function.extent.slice (mask texts)).map List.length := by
    simp only [Extent.slice, List.map_take, List.map_drop, length_mask]
  rw [code_eq, ends.occupies.text_eq, String.toList_ofList]
  exact lineFeeds_take_joinLines lengths
    (fun text mem => feedless text (List.mem_of_mem_drop (List.mem_of_mem_take mem)))
    (fun code mem => Mask.feedless_linesFrom feedless .code code
      (List.mem_of_mem_drop (List.mem_of_mem_take mem))) n

/-- The line of a parameter is not below that of its name, and it is that line if no text of the
function in front of the name looks like the declaration. -/
theorem Ends.paramLine {frame : Frame texts function} (ends : frame.Ends)
    (feedless : ∀ text ∈ texts, '\n' ∉ text)
    (code_eq : function.code = joinLines (function.extent.slice (mask texts)))
    (named : isIdentifier param.name.toList = true) (site : Param.Site frame.list param) :
    function.paramLine param ≤ lineFeeds (frame.opening ++ '(' :: site.front) + 1 ∧
      (param.declaration.occursIn (frame.head ++ '(' :: site.front) = false →
        function.paramLine param = lineFeeds (frame.opening ++ '(' :: site.front) + 1) := by
  obtain ⟨more, holds⟩ := ends.exists_code_eq feedless code_eq
  have declared : function.code = (frame.head ++ '(' :: site.front) ++ (param.name.toList ++
      (site.parts.gap ++ ':' ::
        (site.parts.behind ++ (frame.list.drop site.span.stop ++ ')' :: more)))) := by
    have list_eq := congrArg (frame.head ++ '(' :: · ++ ')' :: more) site.list_eq
    rw [holds]
    simpa [Param.Site.behind] using list_eq
  rw [← frame.line_eq feedless]
  exact paramLine_of_code_eq (ends.lineFeeds_take feedless code_eq) named
    (site.edge_before frame.head) site.parts.gap_blank declared

end Frame

end Function

namespace Contract

variable {source path : String} {contract : Contract}

/-- A function ends in its frame, and its code is that of its lines. -/
theorem exists_frame_of_mem_functions (parsed : parse source path = .ok contract)
    {function : Function} (mem : function ∈ contract.functions)
    (closed : Mask.behind .code ((linesOf source).take (function.line - 1).toNat) ≠ .block) :
    ∃ frame : function.Frame (linesOf source), frame.Ends ∧
      function.code = joinLines (function.extent.slice (mask (linesOf source))) := by
  obtain ⟨target, above, line, later, below, last, cut, header, read⟩ :=
    exists_read_of_mem_functions parsed mem
  have inside : ∀ text ∈ linesOf source, OneLine text :=
    fun text mem => oneLine_of_mem_splitLines mem
  have feedless : ∀ text ∈ linesOf source, '\n' ∉ text := fun text mem => (inside text mem).feedless
  have excerpt := Excerpt.of_ofTexts feedless cut
  have code_eq := Function.code_eq_of_header inside cut header read closed
  rw [List.append_assoc, List.cons_append] at cut
  obtain ⟨frame, ends⟩ :=
    Function.exists_frame_of_read feedless cut (Function.read_append excerpt read below)
  exact ⟨frame, ends, code_eq⟩

/-- In the parameter list of a function, the name of every parameter stands in its declaration, with
the colon behind it.  The line of the parameter is not below that of its name, and it is that line
if no text of the function in front of the name looks like the declaration. -/
theorem paramLine_of_parse (parsed : parse source path = .ok contract) {function : Function}
    (mem : function ∈ contract.functions)
    (closed : Mask.behind .code ((linesOf source).take (function.line - 1).toNat) ≠ .block) :
    ∃ frame : function.Frame (linesOf source), ∀ param ∈ function.params,
      isIdentifier param.name.toList = true → Nonempty (Param.Site frame.list param) ∧
        ∀ site : Param.Site frame.list param,
          joinLines (mask (linesOf source)) = frame.opening ++ '(' :: site.front ++
            (param.name.toList ++ (site.behind ++ ')' :: frame.after)) ∧
          StandsOn (mask (linesOf source)) (lineFeeds (frame.opening ++ '(' :: site.front) + 1)
            (frame.opening ++ '(' :: site.front) param.name.toList ∧
          function.paramLine param ≤ lineFeeds (frame.opening ++ '(' :: site.front) + 1 ∧
          (param.declaration.occursIn (frame.head ++ '(' :: site.front) = false →
            StandsOn (mask (linesOf source)) (function.paramLine param)
              (frame.opening ++ '(' :: site.front) param.name.toList) := by
  obtain ⟨frame, ends, code_eq⟩ := exists_frame_of_mem_functions parsed mem closed
  have feedless : ∀ text ∈ linesOf source, '\n' ∉ text :=
    fun text mem => (oneLine_of_mem_splitLines mem).feedless
  refine ⟨frame, fun param param_mem named => ⟨?_, fun site => ?_⟩⟩
  · rw [frame.params_eq] at param_mem
    exact Param.exists_site param_mem named
  have whole := frame.text_eq_site site
  have stands := standsOn_of_joinLines (Mask.feedless_linesFrom feedless .code) whole named
    (fun c last => (site.edge_before frame.opening c last).1) site.edge_behind
  obtain ⟨not_below, exact_line⟩ := ends.paramLine feedless code_eq named site
  exact ⟨whole, stands, not_below, fun absent => exact_line absent ▸ stands⟩

/-- A parameter behind `mut` and a line feed, with its colon on the next line. -/
theorem paramLine_of_parse_mutable :
    let definition := "  /* b: */ fn f(\n    a: u64, mut\n    b\n: u128,\n  ) \x7b \x7d"
    let block := "impl A \x7b\n" ++ definition ++ "\n\x7d"
    let source := "#[contracttype]\nstruct A \x7b \x7d\n#[contractimpl]\n" ++ block ++ "\n"
    let param : Param := ⟨"b", "u128"⟩
    let function : Function := ⟨"f", [⟨"a", "u64"⟩, param], none, .priv, false, 5, definition⟩
    let contract : Contract :=
      ⟨"A", [⟨"A", [], 2, "struct A \x7b \x7d"⟩], [⟨"A", [function], 4, block⟩], source, "a.rs"⟩
    parse source "a.rs" = .ok contract ∧ function ∈ contract.functions ∧ param ∈ function.params ∧
      Mask.behind .code ((linesOf source).take (function.line - 1).toNat) ≠ .block ∧
      function.paramLine param = 7 ∧
      ∃ front, StandsOn (mask (linesOf source)) (function.paramLine param) front
        param.name.toList := by
  intro definition block source param function contract
  have parsed : parse source "a.rs" = .ok contract := by decide +kernel
  have mem : function ∈ contract.functions := List.mem_singleton.mpr rfl
  have param_mem : param ∈ function.params := by decide
  have closed : Mask.behind .code ((linesOf source).take (function.line - 1).toNat) ≠ .block := by
    decide +kernel
  have named : isIdentifier param.name.toList = true := by decide
  refine ⟨parsed, mem, param_mem, closed, by decide +kernel, ?_⟩
  obtain ⟨frame, sites⟩ := paramLine_of_parse parsed mem closed
  obtain ⟨⟨site⟩, placed⟩ := sites param param_mem named
  obtain ⟨-, -, -, exact_line⟩ := placed site
  -- the name is a character that stands nowhere else in the source
  have once : (joinLines (mask (linesOf source))).count 'b' = 1 := by decide +kernel
  exact ⟨_, exact_line (frame.occursIn_declaration_of_count site named (c := 'b') (by decide) once)⟩

/-- A parameter is given the line of a path with its name, in the type of the one before it. -/
theorem paramLine_ne_behind_path :
    let front := "#[contracttype]\nstruct A \x7b \x7d\n#[contractimpl]\nimpl A \x7b\n  fn f"
    let list := "\n    a: b::C,\n    b: u128,\n  "
    let source := front ++ "(" ++ list ++ ") \x7b \x7d\n\x7d\n"
    let param : Param := ⟨"b", "u128"⟩
    let function : Function :=
      ⟨"f", [⟨"a", "b::C"⟩, param], none, .priv, false, 5, "  fn f(" ++ list ++ ") \x7b \x7d"⟩
    let block : ImplBlock :=
      ⟨"A", [function], 4, "impl A \x7b\n" ++ function.definition ++ "\n\x7d"⟩
    let contract : Contract :=
      ⟨"A", [⟨"A", [], 2, "struct A \x7b \x7d"⟩], [block], source, "a.rs"⟩
    parse source "a.rs" = .ok contract ∧ function ∈ contract.functions ∧ param ∈ function.params ∧
      isIdentifier param.name.toList = true ∧ function.paramLine param = 6 ∧
      ∃ site : Param.Site list.toList param,
        lineFeeds (front.toList ++ '(' :: site.front) + 1 = 7 := by
  intro front list source param function block contract
  have parsed : parse source "a.rs" = .ok contract := by decide +kernel
  have mem : function ∈ contract.functions := List.mem_singleton.mpr rfl
  have blank : "\n    ".toList.all isBlank = true := by decide
  refine ⟨parsed, mem, by decide, by decide, by decide +kernel, ⟨⟨13, 25⟩, by decide +kernel,
    ⟨"\n    ".toList, [], " u128".toList, by decide +kernel,
      .blanks (List.all_eq_true.mp blank), List.forall_mem_nil _, by decide +kernel⟩⟩, ?_⟩
  change lineFeeds (front.toList ++ '(' :: (list.toList.take 13 ++ "\n    ".toList)) + 1 = 7
  decide +kernel

end Contract
end SorobanLint
