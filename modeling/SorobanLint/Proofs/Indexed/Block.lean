import SorobanLint.Proofs.Indexed.Function

/-!
# Structs and blocks by index

The body of a struct and the header of an `impl` block are cut out of the lines between the
positions of two brackets.  A loop over the indices of the lines inside a block reads its functions
and goes on behind the last line of each.  All of this reads what is read from the whole text
(`readStruct_eq`, `readImpl_agrees`).
-/

namespace SorobanLint

open Text

namespace Indexed

/-! ## Pieces of the source -/

/-- The pieces of so many lines, from the one with the index `index` on, that stand behind the
position `opening` and in front of the position `closing`. -/
def segments (codes : List (List Char)) (opening closing : Position) :
    Nat → Nat → Access (List (List Char))
  | 0, _ => pure []
  | left + 1, index => do
    let text ← Access.get codes index
    let start := if index = opening.line then opening.column + 1 else 0
    let stop := if index = closing.line then closing.column else text.length
    return (text.take stop).drop start :: (← segments codes opening closing left (index + 1))

/-- The text behind the position `opening` and in front of the position `closing`. -/
def bodyBetween (codes : List (List Char)) (opening closing : Position) : Access (List Char) :=
  joinLines <$> segments codes opening closing (closing.line + 1 - opening.line) opening.line

/-- The text from a column of the line with the index `index` to the position `opening`. -/
def headerBefore (codes : List (List Char)) (index column : Nat) (opening : Position) :
    Access (List Char) := do
  let first ← Access.get codes index
  if opening.line = index then return (first.take opening.column).drop column
  else
    let last ← Access.get codes opening.line
    return joinLines ([first.drop column] ++ (codes.take opening.line).drop (index + 1) ++
      [last.take opening.column])

section Pieces

variable {codes : List (List Char)} {position stop : Position} {text : List Char}

theorem take_span (left text right : List Char) :
    ((left ++ text ++ right).take (left.length + text.length)).drop left.length = text := by
  rw [← List.length_append, List.take_left, List.drop_left]

theorem get_below {above lines below : List (List Char)} (line other : List Char) :
    Access.get (above ++ line :: (lines ++ other :: below)) (above.length + lines.length + 1) =
      pure other := by
  have index_eq : above.length + lines.length + 1 = (above ++ line :: lines).length := by
    rw [List.length_append, List.length_cons, Nat.add_assoc]
  have cut : above ++ line :: (lines ++ other :: below) =
      (above ++ line :: lines) ++ other :: below := by
    rw [List.append_assoc, List.cons_append]
  rw [index_eq, cut, Access.get_append]

theorem headerBefore_eq (spans : Spans codes position text stop) :
    headerBefore codes position.line position.column stop = pure text := by
  rcases spans with ⟨above, left, right, below, rfl, rfl, rfl⟩ |
    ⟨above, left, right, lines, inside, rest, below, rfl, rfl, rfl, rfl⟩
  · rw [headerBefore, Access.get_append, pure_bind, if_pos rfl, take_span]
  · have between : ((above ++ (left ++ right) :: (lines ++ (inside ++ rest) :: below)).take
        (above.length + lines.length + 1)).drop (above.length + 1) = lines := by
      have cut : above ++ (left ++ right) :: (lines ++ (inside ++ rest) :: below) =
          (above ++ [left ++ right]) ++ lines ++ (inside ++ rest) :: below := by simp
      have taken :
          above.length + lines.length + 1 = ((above ++ [left ++ right]) ++ lines).length := by
        simp only [List.length_append, List.length_singleton]
        omega
      have dropped : above.length + 1 = (above ++ [left ++ right]).length := by
        rw [List.length_append, List.length_singleton]
      rw [cut, taken, List.take_left, dropped, List.drop_left]
    rw [headerBefore, Access.get_append, pure_bind, if_neg (by dsimp only; omega), get_below,
      pure_bind]
    dsimp only
    rw [between, List.drop_left, List.take_left, List.singleton_append, List.cons_append]

theorem segments_below {front lines below : List (List Char)} {inside rest : List Char}
    {opening : Position} {index : Nat}
    (codes_eq : codes = front ++ (lines ++ (inside ++ rest) :: below))
    (index_eq : front.length = index) (inner : opening.line < index) :
    segments codes opening ⟨index + lines.length, inside.length⟩ (lines.length + 1) index =
      pure (lines ++ [inside]) := by
  induction lines generalizing front index with
  | nil =>
      have get_eq : Access.get codes index = pure (inside ++ rest) := by
        rw [codes_eq, ← index_eq]
        exact Access.get_append ..
      rw [List.length_nil, segments, get_eq, pure_bind]
      dsimp only
      rw [if_neg (by omega), Nat.add_zero, if_pos rfl, List.take_left]
      rfl
  | cons line lines ih =>
      have get_eq : Access.get codes index = pure line := by
        rw [codes_eq, ← index_eq]
        exact Access.get_append ..
      have codes_below : codes = (front ++ [line]) ++ (lines ++ (inside ++ rest) :: below) := by
        simp [codes_eq]
      have index_below : (front ++ [line]).length = index + 1 := by simp [index_eq]
      have onward := ih codes_below index_below (Nat.lt_succ_of_lt inner)
      rw [Nat.add_right_comm, Nat.add_assoc] at onward
      rw [List.length_cons, segments, get_eq, pure_bind]
      dsimp only
      rw [if_neg (by omega), if_neg (by omega), List.take_length, onward]
      rfl

/-- The segments between two brackets are the lines of the text between them. -/
theorem bodyBetween_eq {opening : Position}
    (spans : Spans codes ⟨opening.line, opening.column + 1⟩ text stop) :
    bodyBetween codes opening stop = pure text := by
  rcases spans with ⟨above, left, right, below, rfl, position_eq, rfl⟩ |
    ⟨above, left, right, lines, inside, rest, below, rfl, position_eq, rfl, rfl⟩
  · obtain ⟨line_eq, column_eq⟩ := Position.mk.inj position_eq
    have count_eq : above.length + 1 - above.length = 1 := by omega
    rw [bodyBetween, line_eq, count_eq, segments, Access.get_append, pure_bind]
    dsimp only
    rw [line_eq, column_eq, if_pos rfl, if_pos rfl, take_span, segments, pure_bind, map_pure,
      joinLines_singleton]
  · obtain ⟨line_eq, column_eq⟩ := Position.mk.inj position_eq
    have count_eq : above.length + lines.length + 1 + 1 - above.length = lines.length + 1 + 1 := by
      omega
    rw [bodyBetween, line_eq, count_eq, segments, Access.get_append, pure_bind]
    dsimp only
    have codes_below : above ++ (left ++ right) :: (lines ++ (inside ++ rest) :: below) =
        (above ++ [left ++ right]) ++ (lines ++ (inside ++ rest) :: below) := by simp
    have index_below : (above ++ [left ++ right]).length = above.length + 1 := by simp
    have inner : opening.line < above.length + 1 := by omega
    have onward := segments_below codes_below index_below inner
    rw [Nat.add_right_comm] at onward
    rw [line_eq, column_eq, if_pos rfl, if_neg (by omega), List.take_length, List.drop_left, onward,
      pure_bind, map_pure]

end Pieces

/-! ## Structs -/

/-- The fields in the braces that open at the position, and the index of the line with the closing
one. -/
def readFields (codes : List (List Char)) (opening : Position) (limit : Nat) :
    Access (List Field × Nat) := do
  let closing ← matchBrace codes opening limit
  let body ← bodyBetween codes opening closing
  return (Field.readAll (opening.line + 1) body, closing.line)

/-- No fields, and the index of the line with the semicolon behind the tuple at the position. -/
def skipTuple (codes : List (List Char)) (opening : Position) (limit : Nat) :
    Access (List Field × Nat) := do
  let (closing, _) ← findFirst codes opening ";" limit
  return ([], closing.line)

/-- The fields of a struct whose name ends at the position, and the index of its last line. -/
def readBody (codes : List (List Char)) (position : Position) (limit : Nat) :
    Access (List Field × Nat) := do
  let (opening, opener) ← findFirst codes position "\x7b;(" limit
  if opener = '{' then readFields codes opening limit
  else if opener = '(' then skipTuple codes opening limit
  else return ([], opening.line)

/-- Read the struct whose name ends at a column of the line with the given index; also the index of
its last line. -/
def readStruct (texts codes : List (List Char)) (index column : Nat) (name : List Char) :
    Access (Struct × Nat) := do
  let (fields, last) ← readBody codes ⟨index, column⟩ (texts.length - 1)
  return ({
    name := String.ofList name
    fields
    line := (index + 1 : Nat)
    definition :=
      String.ofList (joinLines ((texts.drop index).take (last + 1 - index))) }, last)

section Structs

variable {texts : List (List Char)} {above later : List Line} {line : Line}

/-- In front of a search, no angle bracket is open, and it does not matter what stands there. -/
theorem firstOutsideAngles?_calm (target : Char → Bool) (previous : Option Char)
    (text : List Char) :
    Bracket.firstOutsideAngles? target 0 previous text =
      Bracket.firstOutsideAngles? target 0 none text := by
  rw [← sweep_angleStep, ← sweep_angleStep, sweep_of_calm]
  intro previous c
  simp [angleStep]

section Bodies

variable {codes : List (List Char)} {limit : Nat} {position : Position} {text after : List Char}

theorem readFields_eq (feedless : ∀ code ∈ codes, '\n' ∉ code)
    (ahead : Ahead codes limit position ('{' :: after)) :
    readFields codes position limit =
      match Bracket.closeBrace? 0 after with
      | none => throw (.openBlock (position.line + 1))
      | some (inner, _) =>
        pure (Field.readAll (position.line + 1) inner, position.line + lineFeeds inner) := by
  rw [readFields, matchBrace_eq feedless ahead]
  cases closed : Bracket.closeBrace? 0 after with
  | none => rfl
  | some parts =>
      obtain ⟨inner, tail⟩ := parts
      rw [Bracket.append_of_closeBrace? closed] at ahead
      have body_eq : bodyBetween codes position (position.behind ('{' :: inner)) = pure inner :=
        bodyBetween_eq ((ahead.next (by decide) feedless).spans feedless).1
      have feeds : lineFeeds ('{' :: inner) = lineFeeds inner := lineFeeds_cons_of_ne (by decide)
      dsimp only
      rw [pure_bind, body_eq, pure_bind, Position.line_behind, feeds]

theorem skipTuple_eq (feedless : ∀ code ∈ codes, '\n' ∉ code)
    (ahead : Ahead codes limit position ('(' :: after)) :
    skipTuple codes position limit =
      match Bracket.firstOutsideAngles? (fun c => c = ';') 0 none after with
      | none => throw (.openHeader ";" (position.line + 1))
      | some (tuple, _, _) => pure ([], position.line + lineFeeds tuple) := by
  have semicolon : ";".toList.contains = fun c => c = ';' := by
    funext c
    simp
  have passed : Bracket.firstOutsideAngles? (fun c => c = ';') 0 none ('(' :: after) =
      (Bracket.firstOutsideAngles? (fun c => c = ';') 0 none after).map
        fun found => ('(' :: found.1, found.2) := by
    rw [← firstOutsideAngles?_calm _ (some '(') after]
    rfl
  rw [skipTuple, findFirst_eq (by decide) feedless ahead, semicolon, passed]
  cases Bracket.firstOutsideAngles? (fun c => c = ';') 0 none after with
  | none => rfl
  | some parts =>
      obtain ⟨inner, c, tail⟩ := parts
      have feeds : lineFeeds ('(' :: inner) = lineFeeds inner := lineFeeds_cons_of_ne (by decide)
      dsimp only [Option.map_some]
      rw [pure_bind, Position.line_behind, feeds]

theorem readBody_eq (feedless : ∀ code ∈ codes, '\n' ∉ code)
    (ahead : Ahead codes limit position text) :
    readBody codes position limit =
      Access.of ((Struct.body text (position.line + 1)).map
        fun (fields, last) => (fields, position.line + last)) := by
  have openers : "\x7b;(".toList.contains = fun c => c = '{' || c = ';' || c = '(' := by
    funext c
    simp [Bool.or_assoc]
  rw [readBody, findFirst_eq (by decide) feedless ahead, openers]
  unfold Struct.body
  cases hit : Bracket.firstOutsideAngles? (fun c => c = '{' || c = ';' || c = '(') 0 none text with
  | none => rfl
  | some parts =>
      obtain ⟨before, opener, after⟩ := parts
      rw [(Bracket.append_of_firstOutsideAngles? hit).1] at ahead
      have at_opener := ahead.behind feedless
      have line_eq := position.line_behind before
      dsimp only
      rw [pure_bind]
      dsimp only
      split
      next braced =>
        subst braced
        rw [readFields_eq feedless at_opener, line_eq, Nat.add_right_comm _ 1]
        cases Bracket.closeBrace? 0 after with
        | none => rfl
        | some parts =>
            dsimp only
            rw [Nat.add_assoc _ _ (lineFeeds parts.1)]
            rfl
      next not_brace =>
        split
        next tuple =>
          subst tuple
          rw [skipTuple_eq feedless at_opener, line_eq, Nat.add_right_comm _ 1]
          cases Bracket.firstOutsideAngles? (fun c => c = ';') 0 none after with
          | none => rfl
          | some parts =>
              dsimp only
              rw [Nat.add_assoc]
              rfl
        next =>
          rw [line_eq]
          rfl

end Bodies

/-- The struct is read from the column behind the header that was matched behind the attributes. -/
theorem readStruct_eq {item : List Char} {found : Match} (feedless : ∀ text ∈ texts, '\n' ∉ text)
    (cut : Line.ofTexts texts = above ++ line :: later ++ [])
    (behind : item <:+ trim line.code) (matched : Struct.header.match? item = some found) :
    readStruct texts (mask texts) above.length (columnOf line.code item + found.stop.offset)
        found.captured =
      Access.of ((Struct.read (line.codeFrom item) found line later).map
        fun (struct, last) => (struct, above.length + last)) := by
  have codes_feedless : ∀ code ∈ mask texts, '\n' ∉ code :=
    Mask.feedless_linesFrom feedless .code
  have line_feedless : '\n' ∉ line.codeFrom item :=
    Line.feedless_codeFrom (Excerpt.of_ofTexts feedless cut).numbered.2.2.1 item
  have name_feedless : '\n' ∉ (line.codeFrom item).take found.stop.offset :=
    fun mem => line_feedless (List.mem_of_mem_take mem)
  have name_length : ((line.codeFrom item).take found.stop.offset).length = found.stop.offset := by
    obtain ⟨front, trail, -, codeFrom_eq, -⟩ := line.codeFrom_eq_append behind
    have within := Pattern.offset_le_of_match? matched
    rw [List.length_take_of_le]
    rw [codeFrom_eq, List.length_append]
    omega
  have text_eq : Line.codeText (line.codeFrom item) later =
      (line.codeFrom item).take found.stop.offset ++
        Line.codeText ((line.codeFrom item).drop found.stop.offset) later := by
    rw [Line.codeText, Line.codeText, joinLines_cons, joinLines_cons, ← List.append_assoc,
      List.take_append_drop]
  have ahead := ahead_item cut item
  rw [text_eq] at ahead
  have onward := ahead.behind codes_feedless
  rw [Position.behind_of_feedless name_feedless, name_length] at onward
  rw [readStruct, limit_of_cut cut, readBody_eq codes_feedless onward, Struct.read,
    number_of_cut cut]
  cases Struct.body (Line.codeText ((line.codeFrom item).drop found.stop.offset) later)
    (above.length + 1) with
  | error fault => rfl
  | ok body =>
      change Access.of _ = Access.of _
      simp only [Except.map, definition_eq cut (.inl rfl)]
      rfl

end Structs

/-! ## Blocks -/

/-- Read the functions of a block on the lines from the one with the index `index` on, above the one
with the index `last`, in so many rounds at most; so many braces of other items are open. -/
def readFunctions (texts codes : List (List Char)) (target : List Char) (last : Nat) :
    Nat → Nat → Nat → Access (List Function)
  | 0, index, _ => if index < last then liftM none else pure []
  | rounds + 1, index, depth =>
    if index < last then do
      let code ← Access.get codes index
      let item := (← peel (trim code)).rest
      if depth = 0 && !item.isEmpty && Function.header.isHeadOf item then
        let (function, stop) ← readFunction texts codes index (columnOf code item) target last
        return function :: (← readFunctions texts codes target last rounds (stop + 1) depth)
      else
        let depth := depth + code.count '{' - code.count '}'
        readFunctions texts codes target last rounds (index + 1) depth
    else pure []

/-- Read the block whose header begins at a column of the line with the given index; also the index
of its last line. -/
def readImpl (texts codes : List (List Char)) (index column : Nat) : Access (ImplBlock × Nat) := do
  let limit := texts.length - 1
  let (opening, opener) ← findFirst codes ⟨index, column⟩ "\x7b;" limit
  if opener ≠ '{' then throw (.implWithoutBlock (index + 1))
  else
    let closing ← matchBrace codes opening limit
    let header ← headerBefore codes index column opening
    let target := ImplBlock.targetOf header
    let functions ← readFunctions texts codes target closing.line texts.length (opening.line + 1) 0
    return ({
      target := String.ofList target
      functions
      line := (index + 1 : Nat)
      definition :=
        String.ofList (joinLines ((texts.drop index).take (closing.line + 1 - index))) },
      closing.line)

section Blocks

variable {texts : List (List Char)} {above later below : List Line} {line : Line}

theorem readFunctions_done {texts codes : List (List Char)} {last index : Nat}
    (done : last ≤ index) (target : List Char) (rounds depth : Nat) :
    readFunctions texts codes target last rounds index depth = pure [] := by
  cases rounds <;> rw [readFunctions, if_neg (Nat.not_lt.mpr done)]

/-- A header is not empty. -/
theorem headed_iff (depth : Nat) (item : List Char) :
    (depth = 0 && !item.isEmpty && Function.header.isHeadOf item) =
      (depth = 0 && Function.header.isHeadOf item) := by
  cases item with
  | nil =>
      have headless : Function.header.isHeadOf [] = false := by decide
      simp [headless]
  | cons c item => simp

/-- The loop over the lines of a block reads the functions that are read from its lines. -/
theorem readFunctions_agrees {lines : List Line} {rounds skip last index : Nat}
    (feedless : ∀ text ∈ texts, '\n' ∉ text)
    (cut : Line.ofTexts texts = above ++ lines ++ below) (index_eq : index = above.length + skip)
    (last_eq : last + 1 = above.length + lines.length) (enough : lines.length ≤ rounds + skip)
    (target : List Char) (depth : Nat) :
    (readFunctions texts (mask texts) target last rounds index depth).Agrees
      (ImplBlock.readFunctions target skip depth lines) := by
  -- The loop is at its next line at once, while `skip` counts the lines of a function read before.
  induction lines generalizing above skip rounds index depth with
  | nil =>
      rw [List.length_nil] at last_eq
      rw [readFunctions_done (by omega)]
      exact Access.agrees_of (.ok [])
  | cons line lines ih =>
      have cut_below : Line.ofTexts texts = (above ++ [line]) ++ lines ++ below := by simp [cut]
      have above_length : (above ++ [line]).length = above.length + 1 := by simp
      rw [List.length_cons] at last_eq enough
      have last_below : last + 1 = (above ++ [line]).length + lines.length := by omega
      cases lines with
      | nil =>
          rw [List.length_nil] at last_eq
          rw [readFunctions_done (by omega)]
          cases skip <;> exact Access.agrees_of (.ok [])
      | cons next rest =>
          cases skip with
          | succ skip =>
              exact ih cut_below (by omega) last_below (by omega) depth
          | zero =>
              obtain ⟨rounds, rfl⟩ : ∃ fewer, rounds = fewer + 1 :=
                Nat.exists_eq_add_one_of_ne_zero (by omega)
              rw [Nat.add_zero] at index_eq
              subst index_eq
              rw [List.length_cons] at last_eq
              have limit_eq : last = above.length + (next :: rest).length := by
                rw [List.length_cons]
                omega
              have behind := line.item_suffix_trim
              rw [readFunctions, if_pos (by omega), get_code cut, pure_bind,
                peel_eq (solid_trim line.code), pure_bind, ImplBlock.readFunctions]
              change Access.Agrees (ite ((depth = 0 && !line.item.isEmpty &&
                Function.header.isHeadOf line.item) = true) _ _) _
              rw [headed_iff]
              split
              next headed =>
                rw [Bool.and_eq_true, decide_eq_true_eq] at headed
                obtain ⟨rfl, headed⟩ := headed
                have agrees := readFunction_agrees cut (.inr feedless) behind headed target
                rw [← limit_eq] at agrees
                refine agrees.bind fun (function, stop) _ => ?_
                have index_below : above.length + stop + 1 = (above ++ [line]).length + stop := by
                  omega
                have enough_below : (next :: rest).length ≤ rounds + stop := by omega
                exact (ih cut_below index_below last_below enough_below 0).map (function :: ·)
              next => exact ih cut_below (by omega) last_below (by omega) _

/-- The lines below an opener, up to the closer, as a run of lines of the source. -/
theorem cut_inside {opening height : Nat}
    (cut : Line.ofTexts texts = above ++ line :: later ++ [])
    (within : opening + height ≤ later.length) :
    ∃ upper, Line.ofTexts texts =
        upper ++ (later.drop opening).take height ++ (later.drop opening).drop height ∧
      upper.length = above.length + opening + 1 ∧
      ((later.drop opening).take height).length = height := by
  refine ⟨above ++ line :: later.take opening, ?_, ?_, ?_⟩
  · rw [cut, List.append_nil, List.append_assoc, List.append_assoc, List.take_append_drop,
      List.cons_append, List.take_append_drop]
  · rw [List.length_append, List.length_cons, List.length_take, Nat.min_eq_left (by omega)]
    omega
  · rw [List.length_take, List.length_drop]
    omega

/-- The functions of a block are those on the lines below its opener. -/
theorem readFunctions_inside {opening height : Nat} (feedless : ∀ text ∈ texts, '\n' ∉ text)
    (cut : Line.ofTexts texts = above ++ line :: later ++ [])
    (within : opening + height ≤ later.length) (target : List Char) :
    (readFunctions texts (mask texts) target (above.length + (opening + height)) texts.length
        (above.length + opening + 1) 0).Agrees
      (ImplBlock.readFunctions target 0 0 ((later.drop opening).take height)) := by
  obtain ⟨upper, cut_lines, upper_length, height_eq⟩ := cut_inside cut within
  have total := length_eq_of_cut cut
  exact readFunctions_agrees feedless cut_lines (by omega) (by omega) (by omega) target 0

/-- The block is read from the column of the header behind the attributes. -/
theorem readImpl_agrees (feedless : ∀ text ∈ texts, '\n' ∉ text)
    (cut : Line.ofTexts texts = above ++ line :: later ++ []) (item : List Char) :
    (readImpl texts (mask texts) above.length (columnOf line.code item)).Agrees
      ((ImplBlock.read item line later).map
        fun (block, last) => (block, above.length + last)) := by
  have codes_feedless : ∀ code ∈ mask texts, '\n' ∉ code :=
    Mask.feedless_linesFrom feedless .code
  have excerpt := Excerpt.of_ofTexts feedless cut
  have ahead := ahead_item cut item
  have text_feeds := lineFeeds_codeText (Line.feedless_codeFrom excerpt.numbered.2.2.1 item) excerpt
  have openers : "\x7b;".toList.contains = fun c => c = '{' || c = ';' := by
    funext c
    simp
  unfold ImplBlock.read
  rw [readImpl, limit_of_cut cut, findFirst_eq (by decide) codes_feedless ahead, openers,
    number_of_cut cut]
  dsimp only
  cases hit : Bracket.firstOutsideAngles? (fun c => c = '{' || c = ';') 0 none
    (Line.codeText (line.codeFrom item) later) with
  | none => exact Access.agrees_of (.error _)
  | some parts =>
      obtain ⟨before, opener, after⟩ := parts
      obtain ⟨text_eq, opens⟩ := Bracket.append_of_firstOutsideAngles? hit
      rw [text_eq] at ahead text_feeds
      obtain ⟨spans, at_opener⟩ := ahead.spans codes_feedless
      have line_eq := Position.line_behind ⟨above.length, columnOf line.code item⟩ before
      dsimp only at line_eq ⊢
      rw [pure_bind]
      rw [Bool.or_eq_true, decide_eq_true_eq, decide_eq_true_eq] at opens
      rcases opens with rfl | rfl
      · rw [if_neg (not_not.mpr rfl), if_neg (by decide), matchBrace_eq codes_feedless at_opener,
          line_eq, Nat.add_right_comm _ 1]
        cases closed : Bracket.closeBrace? 0 after with
        | none => exact Access.agrees_of (.error _)
        | some parts =>
            obtain ⟨inner, tail⟩ := parts
            have header_eq : headerBefore (mask texts) above.length (columnOf line.code item)
                (Position.behind ⟨above.length, columnOf line.code item⟩ before) = pure before :=
              headerBefore_eq spans
            have feeds : lineFeeds ('{' :: inner) = lineFeeds inner :=
              lineFeeds_cons_of_ne (by decide)
            have within : lineFeeds before + lineFeeds inner ≤ later.length := by
              rw [← text_feeds, Bracket.append_of_closeBrace? closed, lineFeeds_append,
                ← List.cons_append, lineFeeds_append, feeds]
              omega
            have agrees := readFunctions_inside feedless cut within (ImplBlock.targetOf before)
            dsimp only
            rw [pure_bind, header_eq, pure_bind, Position.line_behind, line_eq, feeds,
              Nat.add_assoc _ _ (lineFeeds inner), definition_eq cut (.inl rfl)]
            refine (agrees.map _).trans ?_
            cases ImplBlock.readFunctions (ImplBlock.targetOf before) 0 0
              ((later.drop (lineFeeds before)).take (lineFeeds inner)) <;> rfl
      · exact Access.agrees_of (.error _)

end Blocks

end Indexed
end SorobanLint
