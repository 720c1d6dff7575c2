import SorobanLint.Proofs.Indexed.Attribute
import SorobanLint.Proofs.Indexed.Signature
import SorobanLint.Proofs.Layout
import SorobanLint.Proofs.Origin
import SorobanLint.Proofs.Reads

/-!
# Functions by index

The parser finds the column of a function's header on its line, matches the header once more from
that column on, reads the signature, and finds the end of the body from the position of its opener.
So it reads the function that is read from the whole text (`readFunction_agrees`), no index is out
of range, and the second match of the header succeeds.
-/

namespace SorobanLint

open Text

namespace Indexed

/-- The column of the code that a line ends with. -/
def columnOf (code item : List Char) : Nat :=
  (trimEnd code).length - item.length

/-- The index of the last line of a function, given the text of its signature from a column of the
line with the given index on, and the offset of the body's opener. -/
def readEnd (codes : List (List Char)) (limit index column : Nat) (text : List Char)
    (body : Nat) : Access Nat := do
  let bodyLine := index + lineFeeds (text.take body)
  let bodyColumn := Position.lastWidth (text.take body) + if bodyLine = index then column else 0
  if (← Access.get text body) = '{' then
    Position.line <$> matchBrace codes ⟨bodyLine, bodyColumn⟩ limit
  else return bodyLine

/-- Read the function whose header stands at a column of the line with the given index; its lines
end at the one with the index `limit`.  Also the index of its last line. -/
def readFunction (texts codes : List (List Char)) (index column : Nat) (target : List Char)
    (limit : Nat) : Access (Function × Nat) := do
  let header := (← Access.get codes index).drop column
  let found ← liftM (Function.header.match? header)
  let name := String.ofList found.captured
  let (text, opening, closing, body) ← readSignature codes limit index name found.stop.offset header
  let returnType := Function.returnType? ((text.take body).drop (closing + 1))
  let last ← readEnd codes limit index column text body
  return ({
    name
    params := Param.readAll ((text.take closing).drop (opening + 1))
    returnType := returnType.map String.ofList
    visibility := (Visibility.split header).1
    isConstructor := Function.isSetUp found.captured returnType target
    line := (index + 1 : Nat)
    definition :=
      String.ofList (joinLines ((texts.drop index).take (last + 1 - index))) }, last)

section Reading

variable {texts : List (List Char)} {above later below : List Line} {line : Line}

theorem number_of_numberFrom {n : Nat} {raws codes : List (List Char)} {rest : List Line}
    (cut : Line.numberFrom n raws codes = above ++ line :: rest) :
    line.number = above.length + n := by
  induction above generalizing n raws codes with
  | nil =>
      cases raws with
      | nil => contradiction
      | cons raw raws =>
          cases codes with
          | nil => contradiction
          | cons code codes =>
              rw [← (List.cons.inj cut).1, List.length_nil, Nat.zero_add]
  | cons first above ih =>
      cases raws with
      | nil => contradiction
      | cons raw raws =>
          cases codes with
          | nil => contradiction
          | cons code codes =>
              rw [ih (List.cons.inj cut).2, List.length_cons]
              omega

theorem number_of_cut (cut : Line.ofTexts texts = above ++ line :: later ++ below) :
    line.number = above.length + 1 := by
  rw [List.append_assoc] at cut
  exact number_of_numberFrom cut

theorem get_code (cut : Line.ofTexts texts = above ++ line :: later ++ below) :
    Access.get (mask texts) above.length = pure line.code := by
  have index_eq : (above.map (·.code)).length = above.length := List.length_map _
  rw [Line.mask_eq_of_ofTexts cut, List.append_assoc, List.map_cons, List.cons_append, ← index_eq]
  exact Access.get_append ..

theorem length_eq_of_cut (cut : Line.ofTexts texts = above ++ line :: later ++ []) :
    texts.length = above.length + later.length + 1 := by
  have lengths := congrArg List.length (Line.texts_eq_of_ofTexts cut)
  simp only [List.length_append, List.length_map, List.length_cons, List.length_nil] at lengths
  omega

theorem limit_of_cut (cut : Line.ofTexts texts = above ++ line :: later ++ []) :
    texts.length - 1 = above.length + later.length := by
  rw [length_eq_of_cut cut, Nat.add_sub_cancel]

/-- The lines from an index on, with those above them. -/
theorem exists_cut {index : Nat} (dropped : (Line.ofTexts texts).drop index = line :: later) :
    ∃ above, above.length = index ∧ Line.ofTexts texts = above ++ line :: later ++ [] := by
  have lengths := congrArg List.length dropped
  rw [List.length_drop, List.length_cons] at lengths
  refine ⟨(Line.ofTexts texts).take index, ?_, ?_⟩
  · rw [List.length_take]
    omega
  · rw [List.append_nil, ← dropped, List.take_append_drop]

/-- The lines of a declaration are cut out of the source by the indices of the first and the last
of them. -/
theorem definition_eq {lines : List Line} {last : Nat}
    (cut : Line.ofTexts texts = above ++ lines ++ below)
    (within : below = [] ∨ last < lines.length) :
    String.ofList (joinLines
        ((texts.drop above.length).take (above.length + last + 1 - above.length))) =
      Line.rawThrough lines last := by
  have start_eq : texts.drop above.length = lines.map (·.raw) ++ below.map (·.raw) := by
    rw [Line.texts_eq_of_ofTexts cut, List.append_assoc, List.drop_left' (List.length_map _)]
  have count_eq : above.length + last + 1 - above.length = last + 1 := by omega
  rw [start_eq, count_eq, Line.rawThrough]
  rcases within with rfl | within
  · rw [List.map_nil, List.append_nil]
  · rw [List.take_append_of_le_length (by simpa using within)]

/-- The text from the column of an item on, up to the last of the given lines, is ahead. -/
theorem ahead_item (cut : Line.ofTexts texts = above ++ line :: later ++ below) (item : List Char) :
    Ahead (mask texts) (above.length + later.length)
      ⟨above.length, columnOf line.code item⟩ (Line.codeText (line.codeFrom item) later) := by
  have column_le : columnOf line.code item ≤ line.code.length :=
    (Nat.sub_le ..).trans (List.IsPrefix.length_le (List.rdropWhile_prefix ..))
  refine ⟨above.map (·.code), line.code.take (columnOf line.code item), line.codeFrom item,
    later.map (·.code), below.map (·.code), ?_, ?_, by simp, rfl⟩
  · have line_eq : line.code.take (columnOf line.code item) ++ line.codeFrom item = line.code :=
      List.take_append_drop ..
    rw [line_eq, Line.mask_eq_of_ofTexts cut]
    simp
  · rw [List.length_map, List.length_take, Nat.min_eq_left column_le]

/-- The lines from the opener of a body on are the same whether they are counted from the first
line of the source or from that of the function. -/
theorem lines_from_opener {codes above later beyond : List (List Char)} {code : List Char}
    {limit : Nat} (codes_eq : codes = above ++ code :: later ++ beyond)
    (limit_eq : limit = above.length + later.length) (feeds width column : Nat) :
    ((codes.drop (above.length + feeds)).take (limit + 1 - (above.length + feeds))).modifyHead
        (·.drop (width + if above.length + feeds = above.length then column else 0)) =
      match (code.drop column :: later).drop feeds with
      | [] => []
      | first :: rest => first.drop width :: rest := by
  have count_eq : limit + 1 - (above.length + feeds) = (code :: later).length - feeds := by
    rw [limit_eq, List.length_cons]
    omega
  have region_eq : (codes.drop (above.length + feeds)).take (limit + 1 - (above.length + feeds)) =
      (code :: later).drop feeds := by
    rw [count_eq, codes_eq, List.append_assoc, ← List.drop_drop, List.drop_left, ← List.drop_take,
      List.take_left]
  rw [region_eq]
  cases feeds with
  | zero => simp [Nat.add_comm]
  | succ feeds =>
      rw [List.drop_succ_cons, List.drop_succ_cons, if_neg (by omega), Nat.add_zero]
      cases later.drop feeds <;> rfl

/-- The last line of a function is found from the position of the opener. -/
theorem readEnd_eq {codes above later beyond : List (List Char)} {code : List Char}
    {limit column offset : Nat} {text lead tail : List Char} {opener : Char}
    (codes_eq : codes = above ++ code :: later ++ beyond)
    (limit_eq : limit = above.length + later.length) (text_eq : text = lead ++ opener :: tail)
    (lead_length : lead.length = offset)
    (leading : text <+: joinLines (code.drop column :: later)) :
    readEnd codes limit above.length column text offset =
      Access.of ((Function.lastLine (code.drop column :: later) (above.length + 1) offset
        opener).map (above.length + ·)) := by
  obtain ⟨more, whole⟩ := leading
  have lead_eq : text.take offset = lead := by rw [text_eq, ← lead_length, List.take_left]
  have whole_eq : (joinLines (code.drop column :: later)).take offset = lead := by
    rw [← whole, text_eq, List.append_assoc, ← lead_length, List.take_left]
  have get_eq : Access.get text offset = pure opener := by
    rw [text_eq, ← lead_length]
    exact Access.get_append ..
  have feeds_eq : Place.line ⟨lead.reverse, []⟩ = lineFeeds lead := by
    rw [Place.line, lineFeeds, List.count_reverse, lineFeeds]
  have width_eq : (Place.lineBefore ⟨lead.reverse, []⟩).length = Position.lastWidth lead := by
    rw [Place.lineBefore, List.length_reverse, Position.lastWidth]
  unfold Function.lastLine
  dsimp only
  rw [readEnd, lead_eq, get_eq, pure_bind, whole_eq, feeds_eq, width_eq]
  split
  next braced =>
    have within : limit < codes.length := by
      rw [codes_eq, List.length_append, List.length_append, List.length_cons]
      omega
    rw [line_matchBrace within, lines_from_opener codes_eq limit_eq, Nat.add_right_comm _ 1]
    dsimp only
    cases Bracket.closingLine? 0 _ with
    | none => rfl
    | some last =>
        dsimp only
        rw [Nat.add_assoc]
        rfl
  next => rfl

/-- A function ends on one of the lines that it is read from. -/
theorem within_of_lastLine {item : List Char} {number offset last : Nat} {opener : Char}
    (cut : Line.ofTexts texts = above ++ line :: later ++ below)
    (whole_lines : below = [] ∨ ∀ text ∈ texts, '\n' ∉ text)
    (closed : Function.lastLine (line.codeFrom item :: later.map (·.code)) number offset opener =
      .ok last) :
    below = [] ∨ last < (line :: later).length := by
  rcases whole_lines with none_below | feedless
  · exact .inl none_below
  · have excerpt := Excerpt.of_ofTexts feedless cut
    have parts_feedless : ∀ code ∈ line.codeFrom item :: later.map (·.code), '\n' ∉ code :=
      List.forall_mem_cons.mpr ⟨Line.feedless_codeFrom excerpt.numbered.2.2.1 item,
        excerpt.tail.numbered.feedless_code⟩
    have within := Function.lastLine_lt parts_feedless (List.cons_ne_nil _ _) closed
    rw [List.length_cons, List.length_map] at within
    exact .inr within

/-- Where the header is matched from its column on, the function is read as from the whole text. -/
theorem readFunction_eq {target item : List Char} {found : Match}
    (cut : Line.ofTexts texts = above ++ line :: later ++ below)
    (whole_lines : below = [] ∨ ∀ text ∈ texts, '\n' ∉ text)
    (matched : Function.header.match? (line.codeFrom item) = some found) :
    readFunction texts (mask texts) above.length (columnOf line.code item) target
        (above.length + later.length) =
      Access.of ((Function.readFound target (line.codeFrom item) found line later).map
        fun (function, last) => (function, above.length + last)) := by
  have number_eq := number_of_cut cut
  have codes_eq : mask texts =
      above.map (·.code) ++ line.code :: later.map (·.code) ++ below.map (·.code) := by
    rw [Line.mask_eq_of_ofTexts cut, List.map_cons]
  have limit_eq : above.length + later.length =
      (above.map (·.code)).length + (later.map (·.code)).length := by simp
  have grown := readSignature_eq codes_eq limit_eq (line.codeFrom item)
    (String.ofList found.captured) found.stop.offset
  rw [List.length_map, ← number_eq] at grown
  rw [readFunction, get_code cut, pure_bind]
  change (liftM (Function.header.match? (line.codeFrom item)) >>= _) = _
  rw [matched, Function.readFound]
  change (readSignature _ _ _ _ _ (line.codeFrom item) >>= _) = _
  cases signed : Function.Signature.find (String.ofList found.captured) line.number
    ((joinLines (line.codeFrom item :: later.map (·.code))).drop found.stop.offset) with
  | error fault =>
      rw [signed] at grown
      dsimp only at grown
      rw [grown]
      rfl
  | ok signature =>
      rw [signed] at grown
      obtain ⟨text, opening, closing, lead, tail, read_eq, leading, text_eq, lead_length, params_eq,
        tail_eq⟩ := grown
      have lead_eq : text.take (found.stop.offset + signature.bodyOffset) = lead := by
        rw [text_eq, ← lead_length, List.take_left]
      change text <+: joinLines (line.code.drop (columnOf line.code item) :: _) at leading
      have ended := readEnd_eq codes_eq limit_eq text_eq lead_length leading
      change _ =
        Access.of (Except.map _ (Function.lastLine (line.codeFrom item :: _) _ _ _)) at ended
      rw [List.length_map, ← number_eq] at ended
      rw [read_eq, pure_bind]
      dsimp only
      rw [ended, lead_eq, tail_eq, params_eq]
      change _ = Access.of (Except.map _ (Function.lastLine _ _ _ _ >>= _))
      cases closed : Function.lastLine (line.codeFrom item :: later.map (·.code)) line.number
        (found.stop.offset + signature.bodyOffset) signature.opener with
      | error fault => rfl
      | ok last =>
          have within := within_of_lastLine cut whole_lines closed
          change Access.of _ = Access.of _
          simp only [Except.map, definition_eq cut within, number_eq]
          rfl

/-- From the column of a header behind attributes on, the header is matched once more, and the
function is the one that is read from the whole text. -/
theorem readFunction_agrees {item : List Char}
    (cut : Line.ofTexts texts = above ++ line :: later ++ below)
    (whole_lines : below = [] ∨ ∀ text ∈ texts, '\n' ∉ text) (behind : item <:+ trim line.code)
    (headed : Function.header.isHeadOf item = true) (target : List Char) :
    (readFunction texts (mask texts) above.length (columnOf line.code item) target
        (above.length + later.length)).Agrees
      ((Function.read target item line later).map
        fun (function, last) => (function, above.length + last)) := by
  obtain ⟨front, trail, -, codeFrom_eq, -⟩ := line.codeFrom_eq_append behind
  have matches_again : Function.header.isHeadOf (line.codeFrom item) = true := by
    rw [codeFrom_eq]
    exact Pattern.isHeadOf_append rfl headed trail
  obtain ⟨found, matched⟩ := Option.isSome_iff_exists.mp matches_again
  rw [readFunction_eq cut whole_lines matched, Function.read]
  dsimp only
  rw [matched]
  exact Access.agrees_of_map ..

end Reading

/-! ## A function by itself -/

/-- Read the function whose header stands on the line with the given index; nothing if there is no
header. -/
def parseFunction (texts : List (List Char)) (index : Nat) (target : String) :
    Access (Option Function) := do
  let codes := mask texts
  let code ← Access.get codes index
  let item := (← peel (trim code)).rest
  if Function.header.isHeadOf item then
    let (function, _) ← readFunction texts codes index (columnOf code item) target.toList
      (texts.length - 1)
    return some function
  else return none

/-- A function is read by index exactly if there is a line with the index, and then it is the
function that is read from the text. -/
theorem parseFunction_eq (texts : List (List Char)) (index : Nat) (target : String) :
    (parseFunction texts index target).run.map (Except.mapError .unfinished) =
      Function.parse? texts index target := by
  rw [Function.parse?, parseFunction]
  cases dropped : (Line.ofTexts texts).drop index with
  | nil =>
      have beyond : (mask texts)[index]? = none := by
        rw [← Line.map_code_ofTexts, ← List.head?_drop, ← List.map_drop, dropped]
        rfl
      rw [Access.get, beyond]
      rfl
  | cons line later =>
      obtain ⟨above, rfl, cut⟩ := exists_cut dropped
      dsimp only
      rw [get_code cut, pure_bind, peel_eq (solid_trim line.code), pure_bind, limit_of_cut cut]
      cases headed : Function.header.isHeadOf line.item with
      | true =>
          have agrees := readFunction_agrees cut (.inl rfl) line.item_suffix_trim headed target.toList
          have onward : Access.Agrees
              (readFunction texts (mask texts) above.length (columnOf line.code line.item)
                target.toList (above.length + later.length) >>= fun result => pure (some result.1))
              (Function.read target.toList line.item line later >>= fun result =>
                .ok (some result.1)) :=
            agrees.bind fun result _ => Access.agrees_of (.ok (some result.1))
          change Option.map _ (ite (Function.header.isHeadOf line.item = true) _ _) = _
          rw [if_pos headed]
          refine onward.trans ?_
          cases Function.read target.toList line.item line later <;> rfl
      | false =>
          change Option.map _ (ite (Function.header.isHeadOf line.item = true) _ _) = _
          rw [if_neg (by simp [headed])]
          rfl

end Indexed
end SorobanLint
