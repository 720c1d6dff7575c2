import SorobanLint.Proofs.Brackets.Split
import SorobanLint.Proofs.Marking

/-!
# Where fields are declared

A field is read from a part of its struct's body between two commas: behind blanks, attributes and
a visibility mark stands the name, and behind that the colon (`Field.exists_parts`).  The line of
the field is that of the first character behind the blanks (`Field.exists_site`), so the name stands
on it unless the attributes or the mark go on over a line (`Contract.declared_of_parse`).
-/

namespace SorobanLint

open Text

namespace Text

/-! ## Texts without comments -/

variable {lines : List (List Char)} {front token rest s t : List Char}

theorem upTo_slashes (absent : ¬"//".toList <:+: s) : upTo ['/', '/'] s = s := by
  induction s with
  | nil => rfl
  | cons c s ih =>
      rw [List.infix_cons_iff, not_or] at absent
      have outside : ¬['/', '/'].isPrefixOf (c :: s) = true :=
        fun opens => absent.1 (List.isPrefixOf_iff_prefix.mp opens)
      rw [upTo, if_neg outside, ih absent.2]

/-- Lines that open no comment open none when they are joined. -/
theorem slashes_joinLines (uncommented : ∀ line ∈ lines, ¬"//".toList <:+: line) :
    ¬"//".toList <:+: joinLines lines := by
  rintro ⟨front, rest, whole⟩
  rw [List.append_assoc] at whole
  obtain ⟨above, left, right, below, rfl, -, -⟩ :=
    cut_joinLines_token whole.symm (by decide) (by decide)
  exact uncommented _ (by simp) ⟨left, right, List.append_assoc left _ right⟩

/-! ## Words on lines -/

/-- The token stands on the line with the given number, behind the front of the joined lines, and no
word goes on into it or out of it. -/
def StandsOn (lines : List (List Char)) (line : Int) (front token : List Char) : Prop :=
  ∃ above left right below, lines = above ++ (left ++ (token ++ right)) :: below ∧
    front = terminated above ++ left ∧ line = above.length + 1 ∧
    (∀ c ∈ left.getLast?, isWord c = false) ∧ ∀ c ∈ right.head?, isWord c = false

theorem standsOn_of_joinLines (feedless : ∀ line ∈ lines, '\n' ∉ line)
    (whole : joinLines lines = front ++ (token ++ rest)) (identifier : isIdentifier token = true)
    (before : ∀ c ∈ front.getLast?, isWord c = false)
    (behind : ∀ c ∈ rest.head?, isWord c = false) :
    StandsOn lines (lineFeeds front + 1) front token := by
  obtain ⟨c, tail, token_eq, -, -⟩ := exists_of_isIdentifier identifier
  obtain ⟨above, left, right, below, rfl, rfl, rfl⟩ :=
    cut_joinLines_token whole (token_eq ▸ List.cons_ne_nil c tail)
      (not_mem_of_isIdentifier identifier (by decide) (by decide))
  rw [List.forall_mem_append, List.forall_mem_cons, List.mem_append, not_or] at feedless
  have above_feeds : lineFeeds (terminated above ++ left) = above.length := by
    rw [lineFeeds_append, lineFeeds_terminated feedless.1, lineFeeds_eq_zero feedless.2.1.1,
      Nat.add_zero]
  refine ⟨above, left, right, below, rfl, rfl, by rw [above_feeds], ?_, ?_⟩
  · intro c last
    refine before c ?_
    rw [List.getLast?_append, Option.mem_def.mp last, Option.some_or]
    rfl
  · intro c head
    refine behind c ?_
    rw [joinLines_cons, List.head?_append, Option.mem_def.mp head, Option.some_or]
    rfl

theorem StandsOn.exists_line {line : Int} (stands : StandsOn lines line front token) :
    ∃ text, lines[(line - 1).toNat]? = some text ∧ token <:+: text := by
  obtain ⟨above, left, right, below, rfl, -, rfl, -⟩ := stands
  have index_eq : ((above.length + 1 : Int) - 1).toNat = above.length := by omega
  refine ⟨left ++ (token ++ right), ?_, left, right, List.append_assoc left token right⟩
  rw [index_eq, List.getElem?_append_right (Nat.le_refl _), Nat.sub_self]
  rfl

end Text

/-- No word goes on behind attributes and blanks. -/
theorem Attribute.Leading.edge {text : List Char} (leading : Leading text) :
    ∀ c ∈ text.getLast?, isWord c = false := by
  induction leading with
  | nil => exact nofun
  | @blank c text blank onward ih =>
      have first : ∀ d ∈ [c].getLast?, isWord d = false := by
        rintro d ⟨⟩
        exact isWord_of_isBlank blank
      exact forall_getLast?_append first ih
  | @mark inner mark text written onward ih =>
      refine forall_getLast?_append ?_ ih
      have closes : mark.getLast? = some ']' := by
        rcases written.text_eq with rfl | rfl
        · exact List.getLast?_concat (l := '#' :: '[' :: inner)
        · exact List.getLast?_concat (l := '#' :: '!' :: '[' :: inner)
      rw [closes]
      rintro d ⟨⟩
      decide

/-! ## The parts of a field -/

namespace Visibility

/-- The text is the mark that is split off, if there is one, and the rest. -/
theorem exists_mark (text : List Char) :
    ∃ m, text = m ++ (split text).2 ∧
      (m = [] ∧ (split text).1 = priv ∨ mark.Reads [] m [] ∧ (split text).1 = pub) := by
  rw [split]
  split
  next found matched =>
    obtain ⟨reach, first, rfl⟩ := Option.map_eq_some_iff.mp matched
    obtain ⟨m, text_eq, -, reads⟩ := Pattern.between_of_mem_ends (List.mem_of_mem_head? first)
    exact ⟨m, text_eq, .inr ⟨reads.elsewhere rfl _ _, rfl⟩⟩
  next => exact ⟨[], rfl, .inl ⟨rfl, rfl⟩⟩

/-- Blanks behind a mark are part of it. -/
theorem reads_mark_append {m blanks : List Char} (reads : mark.Reads [] m [])
    (blank : ∀ c ∈ blanks, isBlank c = true) : mark.Reads [] (m ++ blanks) [] := by
  obtain ⟨-, -, rfl, rfl, restricted, -, rfl, restricted_reads, -, -, rfl,
    ⟨-, gap, rfl, ⟨c, rfl, first⟩, gap_blank⟩, rfl⟩ := reads
  have gap_reads : Pattern.gap.Reads (restricted.reverse ++ "pub".toList.reverse)
      ([c] ++ (gap ++ blanks)) [] :=
    ⟨[c], gap ++ blanks, rfl, ⟨c, rfl, first⟩, List.forall_mem_append.mpr ⟨gap_blank, blank⟩⟩
  have whole :
      mark.Reads [] ("pub".toList ++ (restricted ++ (([c] ++ (gap ++ blanks)) ++ []))) [] :=
    .all_cons rfl (.all_cons (restricted_reads.elsewhere rfl _ _)
      (.all_cons (gap_reads.elsewhere rfl _ _) rfl))
  simpa using whole

theorem last_of_reads_mark {m : List Char} (reads : mark.Reads [] m []) :
    ∀ c ∈ m.getLast?, isBlank c = true := by
  obtain ⟨-, -, rfl, rfl, restricted, -, rfl, -, -, -, rfl,
    ⟨-, gap, rfl, ⟨c, rfl, first⟩, gap_blank⟩, rfl⟩ := reads
  have blank : ∀ d ∈ c :: gap, isBlank d = true := List.forall_mem_cons.mpr ⟨first, gap_blank⟩
  intro d last
  rw [← List.append_assoc, List.append_nil, List.singleton_append,
    List.getLast?_append_of_ne_nil _ (List.cons_ne_nil c gap)] at last
  exact blank d (List.mem_of_mem_getLast? last)

end Visibility

namespace Field

/-- A piece of a struct's body and the declaration of a field in it. -/
structure Parts (piece : List Char) (field : Field) where
  /-- The blanks at the beginning. -/
  blanks : List Char
  /-- The attributes, with the blanks between and behind them. -/
  attributes : List Char
  /-- The mark of a public field, with the blanks behind it. -/
  mark : List Char
  /-- The blanks between the name and its colon. -/
  gap : List Char
  /-- The type, and what follows it. -/
  behind : List Char
  /-- The field is read from this piece. -/
  read : parse? piece field.line = some field
  piece_eq : piece =
    blanks ++ (attributes ++ (mark ++ (field.name.toList ++ (gap ++ ':' :: behind))))
  blanks_eq : blanks = piece.takeWhile isBlank
  leading : Attribute.Leading attributes
  marked : mark = [] ∧ field.visibility = .priv ∨
    Visibility.mark.Reads [] mark [] ∧ field.visibility = .pub
  gap_blank : ∀ c ∈ gap, isBlank c = true
  named : isIdentifier field.name.toList = true
  one_colon : behind.head? ≠ some ':'

variable {piece : List Char} {line : Int} {field : Field}

theorem parse?_eq_some (read : parse? piece line = some field) :
    ∃ raw c behind, (Visibility.split (declaration piece)).2 = raw ++ ':' :: c :: behind ∧
      field.name.toList = trim raw ∧ isIdentifier (trim raw) = true ∧ c ≠ ':' ∧
      field.visibility = (Visibility.split (declaration piece)).1 := by
  unfold parse? at read
  generalize Visibility.split (declaration piece) = parts at read ⊢
  obtain ⟨visibility, rest⟩ := parts
  simp only at read
  split at read
  · contradiction
  next c behind rest_eq =>
    split at read
    · contradiction
    next refused =>
      obtain rfl := Option.some.inj read
      simp only [Bool.or_eq_true, decide_eq_true_eq, Bool.not_eq_true', not_or,
        Bool.not_eq_false] at refused
      have colon : c = ':' := by
        have stopped := List.head?_dropWhile_not (fun c => decide (c ≠ ':')) rest
        rw [rest_eq] at stopped
        simpa using stopped
      subst colon
      obtain ⟨⟨one_colon, some_type⟩, named⟩ := refused
      cases behind with
      | nil => exact absurd rfl some_type
      | cons c behind =>
          refine ⟨rest.takeWhile (· ≠ ':'), c, behind, ?_, by simp, named, ?_, rfl⟩
          · rw [← rest_eq]
            exact List.takeWhile_append_dropWhile.symm
          · rintro rfl
            exact one_colon rfl

/-- The declaration begins what stands behind the attributes of a piece. -/
theorem declaration_prefix (uncommented : ¬"//".toList <:+: piece) :
    declaration piece <+: (Attribute.peel (trim piece)).rest := by
  rw [declaration, upTo_slashes uncommented]
  have solid := (Attribute.rest_suffix none (trim piece)).2
  rw [← Attribute.peel] at solid
  generalize (Attribute.peel (trim piece)).rest = bare at solid ⊢
  have within := (prefix_dropEndWhile (fun c => c = ',' || c = ';') (trim bare)).trans
    (prefix_trim solid)
  refine (prefix_trim fun c head => ?_).trans within
  obtain ⟨more, whole⟩ := within
  refine solid c ?_
  rw [← whole, List.head?_append, Option.mem_def.mp head, Option.some_or]
  rfl

/-- A field is declared in its piece behind blanks, attributes and a mark. -/
theorem exists_parts (read : parse? piece line = some field)
    (uncommented : ¬"//".toList <:+: piece) : Nonempty (Parts piece field) := by
  obtain ⟨raw, c, behind, rest_eq, name_eq, named, one_colon, visibility_eq⟩ :=
    parse?_eq_some read
  obtain ⟨mark, declaration_eq, marked⟩ := Visibility.exists_mark (declaration piece)
  rw [rest_eq] at declaration_eq
  rw [← visibility_eq] at marked
  obtain ⟨more, bare_eq⟩ := declaration_prefix uncommented
  obtain ⟨trail, -, piece_eq⟩ := exists_append_trim piece
  have nonempty : (Attribute.peel (trim piece)).rest ≠ [] := by
    rw [← bare_eq, declaration_eq]
    simp
  obtain ⟨attributes, trim_eq, leading⟩ :=
    Attribute.exists_leading (Attribute.closed_of_rest nonempty)
  obtain ⟨gap, gap_blank, raw_eq⟩ := exists_append_trim raw
  have raw_blank : ∀ c ∈ raw.takeWhile isBlank, isBlank c = true :=
    fun c mem => List.mem_takeWhile_imp mem
  generalize raw.takeWhile isBlank = lead at raw_blank raw_eq
  have marked : mark ++ lead = [] ∧ field.visibility = .priv ∨
      Visibility.mark.Reads [] (mark ++ lead) [] ∧ field.visibility = .pub := by
    rcases marked with ⟨rfl, priv⟩ | ⟨reads, pub⟩
    · -- without a mark the name begins the declaration, and that does not begin with a blank
      refine .inl ⟨?_, priv⟩
      cases lead with
      | nil => rfl
      | cons c lead =>
          have solid := (Attribute.rest_suffix none (trim piece)).2
          rw [← Attribute.peel, ← bare_eq, declaration_eq, raw_eq] at solid
          exact absurd (raw_blank c List.mem_cons_self) (by simp [solid c rfl])
    · exact .inr ⟨Visibility.reads_mark_append reads raw_blank, pub⟩
  refine ⟨⟨_, attributes, mark ++ lead, gap, c :: (behind ++ (more ++ trail)),
    line_of_parse? read ▸ read, ?_, rfl, leading, marked, gap_blank, name_eq ▸ named,
    by simpa using one_colon⟩⟩
  conv => left; rw [piece_eq, trim_eq, ← bare_eq, declaration_eq, raw_eq, ← name_eq]
  simp

/-- What stands in the piece in front of the name. -/
def Parts.front (parts : Parts piece field) : List Char :=
  parts.blanks ++ (parts.attributes ++ parts.mark)

/-- No word goes on into a name, whatever stands in front of its piece but a word. -/
theorem Parts.edge_before (parts : Parts piece field) {front : List Char}
    (edge : ∀ c ∈ front.getLast?, isWord c = false) :
    ∀ c ∈ (front ++ parts.front).getLast?, isWord c = false := by
  have blanks_edge : ∀ c ∈ parts.blanks.getLast?, isWord c = false := by
    intro c last
    rw [parts.blanks_eq] at last
    exact isWord_of_isBlank (List.mem_takeWhile_imp (List.mem_of_mem_getLast? last))
  have mark_edge : ∀ c ∈ parts.mark.getLast?, isWord c = false := by
    rcases parts.marked with ⟨nothing, -⟩ | ⟨reads, -⟩
    · rw [nothing]
      exact nofun
    · exact fun c last => isWord_of_isBlank (Visibility.last_of_reads_mark reads c last)
  exact forall_getLast?_append edge (forall_getLast?_append blanks_edge
    (forall_getLast?_append parts.leading.edge mark_edge))

/-- A part of a struct's body that declares the field. -/
structure Site (body : List Char) (field : Field) where
  /-- The part, between two commas. -/
  span : Span
  span_mem : span ∈ Bracket.spans (· = ',') body
  /-- What the part consists of. -/
  parts : Parts (span.of body) field

namespace Site

variable {body : List Char} {first : Nat}

/-- What stands in the body in front of the name. -/
def front (site : Site body field) : List Char :=
  body.take site.span.start ++ site.parts.front

/-- What stands in the body behind the name. -/
def behind (site : Site body field) : List Char :=
  site.parts.gap ++ ':' :: (site.parts.behind ++ body.drop site.span.stop)

theorem body_eq (site : Site body field) :
    body = site.front ++ (field.name.toList ++ site.behind) := by
  have whole := Bracket.append_of_mem_spans site.span_mem
  rw [site.parts.piece_eq] at whole
  rw [front, behind, Parts.front]
  simpa using whole.symm

/-- No word goes on into the name from what stands in front of it, behind the opening brace. -/
theorem edge_before (site : Site body field) {opening : List Char}
    (edge : ∀ c ∈ opening.getLast?, isWord c = false) :
    ∀ c ∈ (opening ++ site.front).getLast?, isWord c = false := by
  rw [front, ← List.append_assoc]
  refine site.parts.edge_before (forall_getLast?_append edge fun c last => ?_)
  obtain rfl := Bracket.eq_of_last_before_span site.span_mem c last
  decide

/-- No word goes on behind a name, since a blank or the colon follows. -/
theorem edge_behind (site : Site body field) {rest : List Char} :
    ∀ c ∈ (site.behind ++ rest).head?, isWord c = false := by
  rw [behind, List.append_assoc]
  exact edge_of_gap (by decide) site.parts.gap_blank

end Site

/-- Each field is declared in a part of the body.  Its line is that of the first character behind
the blanks there, so attributes and a mark over several lines part it from the line of the name. -/
theorem exists_site {body : List Char} {first : Nat} (mem : field ∈ readAll first body)
    (uncommented : ¬"//".toList <:+: body) :
    ∃ site : Site body field,
      field.line + lineFeeds (site.parts.attributes ++ site.parts.mark) =
        first + lineFeeds site.front := by
  rw [readAll_eq_spans, List.mem_flatMap] at mem
  obtain ⟨span, span_mem, read⟩ := mem
  rw [Option.mem_toList, readSpan] at read
  have within : span.of body <:+: body :=
    ⟨body.take span.start, body.drop span.stop, by
      rw [List.append_assoc, Bracket.append_of_mem_spans span_mem]⟩
  obtain ⟨parts⟩ := exists_parts read (fun slashes => uncommented (slashes.trans within))
  refine ⟨⟨span, span_mem, parts⟩, ?_⟩
  have line_eq := line_of_parse? read
  rw [take_add_of_leading (List.takeWhile_prefix _), ← parts.blanks_eq] at line_eq
  rw [Site.front, Parts.front, line_eq]
  simp only [lineFeeds_append]
  omega

end Field

/-! ## The frame of a struct -/

namespace Struct

/-- The source around the fields of a struct. -/
structure Frame (codes : List (List Char)) (struct : Struct) where
  /-- The source in front of the header. -/
  above : List Char
  /-- The header up to the name. -/
  title : List Char
  /-- What stands between the name and the opening brace. -/
  generics : List Char
  /-- What stands between the braces. -/
  body : List Char
  /-- The source behind the closing brace. -/
  behind : List Char
  text_eq : joinLines codes = above ++ (title ++ (generics ++ '{' :: (body ++ '}' :: behind)))
  line_eq : struct.line = lineFeeds above + 1
  titled : ∃ found,
    header.match? (title ++ (generics ++ '{' :: (body ++ '}' :: behind))) = some found ∧
      found.stop.offset = title.length ∧ struct.name = String.ofList found.captured
  opened : Bracket.firstOutsideAngles? (fun c => c = '{' || c = ';' || c = '(') 0 none
    (generics ++ '{' :: (body ++ '}' :: behind)) = some (generics, '{', body ++ '}' :: behind)
  closed : Bracket.closeBrace? 0 (body ++ '}' :: behind) = some (body, behind)
  fields_eq : struct.fields = Field.readAll (lineFeeds (above ++ (title ++ generics)) + 1) body

variable {codes : List (List Char)} {struct : Struct} {last : Nat}

/-- Fields are read from between braces. -/
theorem exists_braces {text : List Char} {line : Nat} {fields : List Field}
    (read : body text line = .ok (fields, last)) (some_field : fields ≠ []) :
    ∃ before inner behind,
      Bracket.firstOutsideAngles? (fun c => c = '{' || c = ';' || c = '(') 0 none text =
        some (before, '{', inner ++ '}' :: behind) ∧
      Bracket.closeBrace? 0 (inner ++ '}' :: behind) = some (inner, behind) ∧
      fields = Field.readAll (line + lineFeeds before) inner := by
  unfold body at read
  split at read
  · contradiction
  next before opener after opened =>
    simp only at read
    split at read
    next brace =>
      subst brace
      split at read
      · contradiction
      next inner behind closed =>
        obtain ⟨rfl, -⟩ := Prod.mk.inj (Except.ok.inj read)
        obtain rfl := Bracket.append_of_closeBrace? closed
        exact ⟨before, inner, behind, opened, closed, rfl⟩
    next =>
      split at read
      next =>
        split at read
        · contradiction
        · exact absurd (Prod.mk.inj (Except.ok.inj read)).1.symm some_field
      next => exact absurd (Prod.mk.inj (Except.ok.inj read)).1.symm some_field

/-- A struct whose fields have been read has a frame. -/
theorem exists_frame (reached : Outline.Reached codes (.struct struct last))
    (feedless : ∀ code ∈ codes, '\n' ∉ code) (some_field : struct.fields ≠ []) :
    Nonempty (Frame codes struct) := by
  obtain ⟨marking, line_eq, found, matched, name_eq, one_line, read⟩ :=
    reached.exists_struct feedless
  obtain ⟨generics, inner, behind, opened, closed, fields_eq⟩ := exists_braces read some_field
  have text_eq := marking.text_eq
  have offset_le := Pattern.offset_le_of_match? matched
  have header_eq : marking.header = marking.header.take found.stop.offset ++
      (generics ++ '{' :: (inner ++ '}' :: behind)) := by
    rw [← (Bracket.append_of_firstOutsideAngles? opened).1, List.take_append_drop]
  have title_length : (marking.header.take found.stop.offset).length = found.stop.offset := by
    rw [List.length_take, Nat.min_eq_left offset_le]
  rw [(Bracket.append_of_firstOutsideAngles? opened).1] at opened
  generalize marking.header.take found.stop.offset = title at one_line header_eq title_length
  rw [header_eq] at matched text_eq
  refine ⟨⟨marking.above ++ (marking.marker ++ marking.between), title, generics, inner, behind,
    by simpa using text_eq, ?_, ⟨found, matched, title_length.symm, name_eq⟩, opened, closed, ?_⟩⟩
  · rw [line_eq, Outline.Marking.line]
    rfl
  · have line_eq : marking.line + lineFeeds generics = lineFeeds
        (marking.above ++ (marking.marker ++ marking.between) ++ (title ++ generics)) + 1 := by
      rw [Outline.Marking.line, lineFeeds_append _ (title ++ generics), lineFeeds_append title,
        lineFeeds_eq_zero one_line]
      omega
    rw [fields_eq, line_eq]

namespace Frame

/-- The source in front of the fields, with the opening brace. -/
def opening (frame : Frame codes struct) : List Char :=
  frame.above ++ (frame.title ++ (frame.generics ++ ['{']))

theorem text_eq_opening (frame : Frame codes struct) :
    joinLines codes = frame.opening ++ (frame.body ++ '}' :: frame.behind) := by
  rw [frame.text_eq, opening]
  simp

theorem fields_eq_opening (frame : Frame codes struct) :
    struct.fields = Field.readAll (lineFeeds frame.opening + 1) frame.body := by
  rw [frame.fields_eq, opening]
  simp only [lineFeeds_append]
  rfl

theorem edge_opening (frame : Frame codes struct) :
    ∀ c ∈ frame.opening.getLast?, isWord c = false := by
  have closes : frame.opening.getLast? = some '{' := by
    rw [opening, ← List.append_assoc, ← List.append_assoc]
    exact List.getLast?_concat
  rw [closes]
  rintro c ⟨⟩
  decide

end Frame

end Struct

/-! ## Contracts -/

namespace Contract

variable {source path : String} {contract : Contract}

/-- The name of every field stands, as a word of its own, in its declaration, with the colon behind
it.  Its line lies as many lines below that of the field as line feeds stand in the attributes and
the mark of the declaration; so if there is none, it is the line of the field. -/
theorem declared_of_parse (parsed : parse source path = .ok contract) {struct : Struct}
    (struct_mem : struct ∈ contract.types) {field : Field} (field_mem : field ∈ struct.fields) :
    ∃ (frame : Struct.Frame (mask (linesOf source)) struct) (site : Field.Site frame.body field),
      joinLines (mask (linesOf source)) = frame.opening ++ site.front ++
        (field.name.toList ++ (site.behind ++ '}' :: frame.behind)) ∧
      StandsOn (mask (linesOf source))
        (field.line + lineFeeds (site.parts.attributes ++ site.parts.mark))
        (frame.opening ++ site.front) field.name.toList ∧
      ('\n' ∉ site.parts.attributes ++ site.parts.mark →
        StandsOn (mask (linesOf source)) field.line (frame.opening ++ site.front)
          field.name.toList) := by
  obtain ⟨outline, first, rest, rfl, -, -, rfl⟩ := parse_eq_ok parsed
  have feedless : ∀ text ∈ linesOf source, '\n' ∉ text :=
    fun text mem => (oneLine_of_mem_splitLines mem).feedless
  have masked_feedless := Mask.feedless_linesFrom feedless .code
  obtain ⟨last, reached⟩ := (Outline.reached_scan feedless path).1 struct struct_mem
  obtain ⟨frame⟩ := Struct.exists_frame reached masked_feedless (List.ne_nil_of_mem field_mem)
  have uncommented : ¬"//".toList <:+: frame.body := by
    intro slashes
    have no_comment : ∀ text ∈ mask (linesOf source), Uncommented text :=
      Mask.uncommented_linesFrom (.inl rfl) (linesOf source)
    refine slashes_joinLines (fun text mem => (no_comment text mem).1) (slashes.trans ?_)
    rw [frame.text_eq_opening]
    exact ⟨frame.opening, '}' :: frame.behind, List.append_assoc _ _ _⟩
  rw [frame.fields_eq_opening] at field_mem
  obtain ⟨site, line_eq⟩ := Field.exists_site field_mem uncommented
  have whole : joinLines (mask (linesOf source)) = frame.opening ++ site.front ++
      (field.name.toList ++ (site.behind ++ '}' :: frame.behind)) := by
    have body_eq := congrArg (frame.opening ++ · ++ '}' :: frame.behind) site.body_eq
    rw [frame.text_eq_opening, ← List.append_assoc]
    simpa using body_eq
  have stands := standsOn_of_joinLines masked_feedless whole site.parts.named
    (site.edge_before frame.edge_opening) site.edge_behind
  have line_eq : field.line + lineFeeds (site.parts.attributes ++ site.parts.mark) =
      lineFeeds (frame.opening ++ site.front) + 1 := by
    rw [line_eq, lineFeeds_append frame.opening]
    omega
  rw [← line_eq] at stands
  refine ⟨frame, site, whole, stands, fun one_line => ?_⟩
  rwa [lineFeeds_eq_zero one_line, Nat.cast_zero, add_zero] at stands

/-- A field behind another one, an attribute and a mark on its line, with its colon on the next. -/
theorem declared_of_parse_oneLine :
    let definition := "struct A \x7b\n  x: [u8; 2], #[doc] pub(crate) y\n : u64\n\x7d"
    let source := "#[contracttype]\n" ++ definition ++ "\n"
    let field : Field := ⟨"y", "u64", .pub, 3⟩
    let struct : Struct := ⟨"A", [⟨"x", "[u8; 2]", .priv, 3⟩, field], 2, definition⟩
    let contract : Contract := ⟨"A", [struct], [], source, "a.rs"⟩
    parse source "a.rs" = .ok contract ∧ struct ∈ contract.types ∧ field ∈ struct.fields ∧
      ∃ front, StandsOn (mask (linesOf source)) field.line front field.name.toList := by
  intro definition source field struct contract
  have parsed : parse source "a.rs" = .ok contract := by decide +kernel
  have struct_mem : struct ∈ contract.types := List.mem_singleton.mpr rfl
  have field_mem : field ∈ struct.fields := by decide
  obtain ⟨frame, site, -, stands, -⟩ := declared_of_parse parsed struct_mem field_mem
  refine ⟨parsed, struct_mem, field_mem, frame.opening ++ site.front, ?_⟩
  -- no line below holds the name, so no line feed stands in the attribute or the mark
  have absent : ∀ text ∈ (mask (linesOf source)).drop 3, 'y' ∉ text := by decide +kernel
  obtain ⟨text, here, inside⟩ := stands.exists_line
  generalize lineFeeds (site.parts.attributes ++ site.parts.mark) = feeds at stands here
  cases feeds with
  | zero => simpa using stands
  | succ feeds =>
      have index_eq : (field.line + (feeds + 1 : Nat) - 1).toNat = 3 + feeds := by
        change ((3 : Int) + (feeds + 1 : Nat) - 1).toNat = 3 + feeds
        omega
      rw [index_eq, ← List.getElem?_drop] at here
      have name_mem : 'y' ∈ field.name.toList := by decide
      exact absurd (inside.subset name_mem) (absent text (List.mem_of_getElem? here))

/-- Behind an attribute on a line of its own, a field is given the line of the attribute, where its
name does not stand. -/
theorem declared_below_attribute :
    let definition := "struct A \x7b\n  #[doc]\n  x: u128,\n\x7d"
    let source := "#[contracttype]\n" ++ definition ++ "\n"
    let field : Field := ⟨"x", "u128", .priv, 3⟩
    let struct : Struct := ⟨"A", [field], 2, definition⟩
    let contract : Contract := ⟨"A", [struct], [], source, "a.rs"⟩
    parse source "a.rs" = .ok contract ∧ struct ∈ contract.types ∧ field ∈ struct.fields ∧
      ∀ front, ¬StandsOn (mask (linesOf source)) field.line front field.name.toList := by
  intro definition source field struct contract
  have parsed : parse source "a.rs" = .ok contract := by decide +kernel
  refine ⟨parsed, List.mem_singleton.mpr rfl, List.mem_singleton.mpr rfl, fun front stands => ?_⟩
  obtain ⟨text, here, inside⟩ := stands.exists_line
  have line_eq : (mask (linesOf source))[(field.line - 1).toNat]? = some "  #[doc]".toList := by
    decide +kernel
  obtain rfl := Option.some.inj (line_eq.symm.trans here)
  have name_mem : 'x' ∈ field.name.toList := by decide
  exact absurd (inside.subset name_mem) (by decide)

end Contract
end SorobanLint
