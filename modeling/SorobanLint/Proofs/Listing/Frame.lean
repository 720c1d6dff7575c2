import SorobanLint.Proofs.Nesting
import SorobanLint.Proofs.Origin

/-!
# The lines between the braces of a block

The masked text of a source falls into what stands in front of a block, its header, its body and
what stands behind it.  The block reads its functions from the lines of its body
(`ImplBlock.exists_frame_of_read`), and the brace depth in front of each of them is that of the
lines above (`ImplBlock.Frame.Inner.exists_above`).
-/

namespace SorobanLint

open Text

namespace ImplBlock

open SorobanLint.Bracket

/-- Where the braces of a block stand in the masked text of its source. -/
structure Frame (texts : List (List Char)) (block : ImplBlock) where
  /-- The text in front of the header. -/
  lead : List Char
  /-- The header. -/
  header : List Char
  /-- The text between the braces. -/
  body : List Char
  /-- The text behind the closing brace. -/
  tail : List Char
  text_eq : joinLines (mask texts) = lead ++ (header ++ '{' :: (body ++ '}' :: tail))
  /-- The block goes from the line of its header to that of its closing brace. -/
  extent_eq : block.extent =
    ⟨lineFeeds lead + 1, lineFeeds lead + lineFeeds header + lineFeeds body + 1⟩
  target_eq : block.target = String.ofList (targetOf header)
  opener : firstOutsideAngles? (fun c => c = '{' || c = ';') 0 none
    (header ++ '{' :: (body ++ '}' :: tail)) = some (header, '{', body ++ '}' :: tail)
  nested : Nested body

namespace Frame

variable {texts : List (List Char)} {block : ImplBlock}

/-- The number of the line of the opening brace. -/
def opening (frame : Frame texts block) : Nat :=
  lineFeeds frame.lead + lineFeeds frame.header + 1

/-- The number of the line of the closing brace. -/
def closing (frame : Frame texts block) : Nat :=
  frame.opening + lineFeeds frame.body

/-- The lines below that of the opening brace, down to that of the closing one. -/
def inside (frame : Frame texts block) : List Line :=
  ((Line.ofTexts texts).drop frame.opening).take (lineFeeds frame.body)

/-- The line stands between those of the braces; the front of the body ends with the line above. -/
structure Inner (frame : Frame texts block) (front : List Char) (line : Line) : Prop where
  mem : line ∈ Line.ofTexts texts
  number_eq : line.number = frame.opening + lineFeeds front + 1
  above_closing : line.number < frame.closing
  leading : front ++ ['\n'] <+: frame.body

end Frame

section Reading

variable {texts : List (List Char)} {block : ImplBlock} {item front : List Char}
  {above later : List Line} {first line : Line} {last : Nat}

theorem exists_frame_of_read (feedless : ∀ text ∈ texts, '\n' ∉ text)
    (cut : Line.ofTexts texts = above ++ first :: later)
    (read : ImplBlock.read item first later = .ok (block, last)) :
    ∃ frame : Frame texts block,
      readFunctions (targetOf frame.header) 0 0 frame.inside = .ok block.functions := by
  have numbered := Line.numbered_ofTexts feedless
  rw [cut] at numbered
  have excerpt := Excerpt.ofTexts feedless
  rw [cut] at excerpt
  have there := excerpt.drop above.length
  rw [List.drop_left] at there
  obtain ⟨extent_eq, -⟩ := ImplBlock.laidOut_of_read there read
  obtain ⟨before, after, inner, tail, functions, opened, closed, listed, rfl, rfl⟩ :=
    read_eq_ok read
  have after_eq := append_of_closeBrace? closed
  have text_eq := (append_of_firstOutsideAngles? opened).1
  rw [after_eq] at text_eq opened
  rw [text_eq] at opened
  let column := (trimEnd first.code).length - item.length
  let lead := terminated (above.map (·.code)) ++ first.code.take column
  have lead_feeds : lineFeeds lead = above.length := by
    have above_feedless := (numbered.take above.length).feedless_code
    rw [List.take_left] at above_feedless
    have first_feedless : '\n' ∉ first.code := there.numbered.feedless_code _ (by simp)
    rw [lineFeeds_append, lineFeeds_terminated above_feedless, List.length_map,
      lineFeeds_eq_zero fun mem => first_feedless (List.mem_of_mem_take mem)]
    rfl
  refine ⟨⟨lead, before, inner, tail, ?_, ?_, rfl, opened, nested_of_closeBrace? closed⟩, ?_⟩
  · rw [← text_eq, ← Line.map_code_ofTexts, cut, List.map_append, List.map_cons, joinLines_append,
      Line.codeText, Line.codeFrom, joinLines_cons, joinLines_cons, List.append_assoc]
    simp [column, ← List.append_assoc]
  · rw [extent_eq, lead_feeds]
    push_cast
    simp only [Extent.mk.injEq]
    constructor <;> ring
  · have below : (Line.ofTexts texts).drop (lineFeeds lead + lineFeeds before + 1) =
        later.drop (lineFeeds before) := by
      rw [cut, lead_feeds, Nat.add_right_comm, ← List.drop_drop, ← List.drop_drop, List.drop_left,
        List.drop_one, List.tail_cons]
    simpa only [Frame.inside, Frame.opening, below] using listed

end Reading

namespace Frame

variable {texts : List (List Char)} {block : ImplBlock} {frame : Frame texts block}
  {front : List Char} {line : Line}

theorem excerpt_inside (feedless : ∀ text ∈ texts, '\n' ∉ text) (frame : Frame texts block) :
    Excerpt texts frame.opening frame.inside := by
  have excerpt := ((Excerpt.ofTexts feedless).drop frame.opening).take (lineFeeds frame.body)
  rwa [Nat.zero_add] at excerpt

/-- The masked lines from that of the opening brace on. -/
theorem exists_joinLines (feedless : ∀ text ∈ texts, '\n' ∉ text) (frame : Frame texts block) :
    ∃ right, '\n' ∉ right ∧
      joinLines (right :: ((Line.ofTexts texts).drop frame.opening).map (·.code)) =
        frame.body ++ '}' :: frame.tail := by
  have masked_feedless : ∀ code ∈ mask texts, '\n' ∉ code :=
    Mask.feedless_linesFrom feedless .code
  have nonempty : mask texts ≠ [] := by
    intro empty
    have whole := frame.text_eq
    rw [empty] at whole
    simp at whole
  have whole : joinLines (mask texts) =
      (frame.lead ++ (frame.header ++ ['{'])) ++ (frame.body ++ '}' :: frame.tail) := by
    rw [frame.text_eq]
    simp
  obtain ⟨above, left, right, below, codes_eq, front_eq, rest_eq⟩ := cut_joinLines nonempty whole
  rw [codes_eq, List.forall_mem_append, List.forall_mem_cons, List.mem_append] at masked_feedless
  obtain ⟨above_feedless, line_feedless, -⟩ := masked_feedless
  have left_feedless : '\n' ∉ left := fun mem => line_feedless (.inl mem)
  have opening_eq : frame.opening = above.length + 1 := by
    have feeds := congrArg lineFeeds front_eq
    simp only [lineFeeds_append, lineFeeds_terminated above_feedless,
      lineFeeds_eq_zero left_feedless] at feeds
    rw [← Nat.add_zero above.length, ← feeds]
    rfl
  refine ⟨right, fun mem => line_feedless (.inr mem), ?_⟩
  rw [List.map_drop, Line.map_code_ofTexts, codes_eq, opening_eq, ← List.drop_drop, List.drop_left,
    List.drop_one, List.tail_cons, rest_eq]

theorem length_inside (feedless : ∀ text ∈ texts, '\n' ∉ text) (frame : Frame texts block) :
    frame.inside.length = lineFeeds frame.body := by
  obtain ⟨right, right_feedless, whole⟩ := frame.exists_joinLines feedless
  have below_feedless := ((Excerpt.ofTexts feedless).drop frame.opening).numbered.feedless_code
  have feeds := congrArg lineFeeds whole
  rw [lineFeeds_joinLines right_feedless below_feedless, List.length_map, lineFeeds_append] at feeds
  rw [inside, List.length_take]
  omega

/-- Below the line of the opening brace, a line stands under those that the front of the body
ends. -/
theorem Inner.exists_drop (feedless : ∀ text ∈ texts, '\n' ∉ text)
    (inner : frame.Inner front line) :
    ∃ above below, (Line.ofTexts texts).drop frame.opening = above ++ line :: below ∧
      front ++ ['\n'] = front.takeWhile (· ≠ '\n') ++ '\n' :: terminated (above.map (·.code)) := by
  obtain ⟨right, right_feedless, whole⟩ := frame.exists_joinLines feedless
  obtain ⟨rest, body_eq⟩ := inner.leading
  have excerpt := (Excerpt.ofTexts feedless).drop frame.opening
  have lines_feedless : ∀ code ∈ right ::
      ((Line.ofTexts texts).drop frame.opening).map (·.code), '\n' ∉ code :=
    List.forall_mem_cons.mpr ⟨right_feedless, excerpt.numbered.feedless_code⟩
  rw [← body_eq, List.append_assoc, List.append_assoc, List.singleton_append] at whole
  obtain ⟨upper, next, lower, codes_eq, upper_eq, -⟩ := line_behind_feed lines_feedless whole
  cases upper with
  | nil => simp [terminated] at upper_eq
  | cons other upper =>
      rw [List.cons_append] at codes_eq
      obtain ⟨rfl, below_eq⟩ := List.cons.inj codes_eq
      obtain ⟨above, behind, lines_eq, rfl, behind_eq⟩ := List.map_eq_append_iff.mp below_eq
      obtain ⟨found, below, rfl, rfl, rfl⟩ := List.map_eq_cons_iff.mp behind_eq
      rw [lines_eq] at excerpt lines_feedless
      rw [List.map_append, ← List.cons_append, List.forall_mem_append] at lines_feedless
      have above_feeds : lineFeeds front = above.length := by
        have feeds := congrArg lineFeeds upper_eq
        rw [lineFeeds_terminated lines_feedless.1, lineFeeds_append] at feeds
        simpa [lineFeeds] using feeds.symm
      have found_mem : found ∈ Line.ofTexts texts := by
        refine List.mem_of_mem_drop (i := frame.opening) ?_
        rw [lines_eq]
        simp
      -- Both lines have the same number.
      have found_eq : found = line := by
        refine (Line.numbered_ofTexts feedless).eq_of_number_eq found_mem inner.mem ?_
        rw [excerpt.number_eq_of_append, inner.number_eq, above_feeds, Nat.zero_add]
      subst found_eq
      refine ⟨above, below, lines_eq, ?_⟩
      rw [← upper_eq, terminated_cons, ← takeWhile_append_newline front [], ← upper_eq,
        terminated_cons, takeWhile_append_newline, takeWhile_of_feedless right_feedless]

/-- A line between those of the braces is not the last one down to the closing brace. -/
theorem Inner.exists_cut (feedless : ∀ text ∈ texts, '\n' ∉ text)
    (inner : frame.Inner front line) :
    ∃ above below, frame.inside = above ++ line :: below ∧ below ≠ [] ∧
      front ++ ['\n'] = front.takeWhile (· ≠ '\n') ++ '\n' :: terminated (above.map (·.code)) := by
  obtain ⟨above, below, lines_eq, front_eq⟩ := inner.exists_drop feedless
  have excerpt := (Excerpt.ofTexts feedless).drop frame.opening
  rw [lines_eq] at excerpt
  have height : above.length + 1 < lineFeeds frame.body := by
    have above_closing := inner.above_closing
    rw [excerpt.number_eq_of_append, closing] at above_closing
    omega
  have inside_eq : frame.inside =
      above ++ line :: below.take (lineFeeds frame.body - (above.length + 1)) := by
    rw [inside, lines_eq, List.append_cons, List.take_append, List.take_of_length_le]
    · simp
    · simpa using Nat.le_of_lt height
  refine ⟨above, _, inside_eq, ?_, front_eq⟩
  intro empty
  have lengths := frame.length_inside feedless
  rw [inside_eq, empty, List.length_append, List.length_singleton] at lengths
  omega

/-- Every line between those of the braces ends some front of the body. -/
theorem exists_inner (feedless : ∀ text ∈ texts, '\n' ∉ text) {above below : List Line}
    (cut : frame.inside = above ++ line :: below) (nonempty : below ≠ []) :
    ∃ front, frame.Inner front line := by
  have lengths := frame.length_inside feedless
  have below_pos := List.length_pos_of_ne_nil nonempty
  have excerpt := frame.excerpt_inside feedless
  rw [cut, List.length_append, List.length_cons] at lengths
  rw [cut] at excerpt
  have number := excerpt.number_eq_of_append
  have lower : above.length < lineFeeds frame.body := by omega
  obtain ⟨front, feeds, leading⟩ := exists_feed lower
  refine ⟨front, ?_, by rw [number, feeds], ?_, leading⟩
  · have mem : line ∈ frame.inside := by simp [cut]
    exact List.mem_of_mem_drop (List.mem_of_mem_take mem)
  · rw [closing]
    omega

/-- The depth in front of a line is that behind the rest of the opening brace's line and the lines
between. -/
theorem Inner.exists_above (feedless : ∀ text ∈ texts, '\n' ∉ text)
    (inner : frame.Inner front line) :
    ∃ above below, frame.inside = above ++ line :: below ∧ below ≠ [] ∧
      BracesFit (depthAfter 0 (front.takeWhile (· ≠ '\n'))) (above.map (·.code)).flatten ∧
      depthAfter 0 front =
        depthAfter (depthAfter 0 (front.takeWhile (· ≠ '\n'))) (above.map (·.code)).flatten := by
  obtain ⟨above, below, cut, nonempty, front_eq⟩ := inner.exists_cut feedless
  have same : bracesOf front =
      bracesOf (front.takeWhile (· ≠ '\n') ++ (above.map (·.code)).flatten) := by
    have whole := congrArg bracesOf front_eq
    rw [bracesOf_append, bracesOf_append, bracesOf_cons_of_ne (by decide) (by decide),
      bracesOf_cons_of_ne (by decide) (by decide), bracesOf_nil, List.append_nil,
      bracesOf_terminated] at whole
    rw [whole, bracesOf_append]
  have fit : BracesFit 0 (front.takeWhile (· ≠ '\n') ++ (above.map (·.code)).flatten) := by
    rw [← bracesFit_bracesOf, ← same, bracesFit_bracesOf]
    obtain ⟨rest, body_eq⟩ := inner.leading
    have body_fit := frame.nested.fit
    rw [← body_eq, List.append_assoc, bracesFit_append] at body_fit
    exact body_fit.1
  have depth_eq : depthAfter 0 front = depthAfter 0 (front.takeWhile (· ≠ '\n') ++
      (above.map (·.code)).flatten) := by
    rw [← depthAfter_bracesOf, same, depthAfter_bracesOf]
  rw [bracesFit_append] at fit
  exact ⟨above, below, cut, nonempty, fit.2, by rw [depth_eq, depthAfter_append 0 fit.1]⟩

end Frame

end ImplBlock
end SorobanLint
