import SorobanLint.Proofs.Alone
import SorobanLint.Proofs.Attributes
import SorobanLint.Proofs.LastLine
import SorobanLint.Proofs.Reads

/-!
# Where functions end

The masked text of a source falls into what stands in front of a function's header, the header, its
parameter list and what stands behind it, where the first opening brace or semicolon outside all
brackets begins the body (`Function.exists_frame_of_read`).  The function ends on the line of that
semicolon, or on that of the brace that matches the opening one (`Contract.ends_of_parse`).
-/

namespace SorobanLint

open Text SorobanLint.Bracket

/-- The number of braces that a text opens, less that of the braces that it closes. -/
def Bracket.braceDepth (text : List Char) : Int :=
  text.count '{' - text.count '}'

/-- In front of the brace that matches an opening one, more braces are open than closed. -/
theorem Bracket.Nested.braceDepth_pos {inner front : List Char} (nested : Nested inner)
    (leading : front <+: inner) : 0 < braceDepth ('{' :: front) := by
  have fits := nested.fit front leading
  rw [braceDepth, List.count_cons_self, List.count_cons_of_ne (by decide)]
  omega

theorem Bracket.Nested.braceDepth_eq {inner : List Char} (nested : Nested inner) :
    braceDepth ('{' :: inner ++ ['}']) = 0 := by
  have settled := nested.settled
  simp [braceDepth, List.count_append, settled]

namespace Function

/-- The line on which the header of a function is matched. -/
structure Heading (texts : List (List Char)) (function : Function) where
  /-- The line of the header. -/
  line : Line
  /-- What stands in front of the header on its line. -/
  attributes : List Char
  /-- The match of the header. -/
  found : Match
  line_mem : line ∈ Line.ofTexts texts
  number_eq : function.line = line.number
  code_eq : line.code = attributes ++ line.codeFrom line.item
  matched : header.match? (line.codeFrom line.item) = some found
  name_eq : function.name = String.ofList found.captured

namespace Heading

variable {texts : List (List Char)} {function : Function}

/-- The masked text in front of the header. -/
def lead (heading : Heading texts function) : List Char :=
  terminated ((mask texts).take (heading.line.number - 1)) ++ heading.attributes

/-- The header up to the name, with the name. -/
def title (heading : Heading texts function) : List Char :=
  (heading.line.codeFrom heading.line.item).take heading.found.stop.offset

theorem lineFeeds_lead (feedless : ∀ text ∈ texts, '\n' ∉ text)
    (heading : Heading texts function) :
    lineFeeds heading.lead + 1 = heading.line.number := by
  have numbered := Line.numbered_ofTexts feedless
  have bounds := numbered.bounds heading.line_mem
  have count_eq : ((mask texts).take (heading.line.number - 1)).length =
      heading.line.number - 1 := by
    rw [← Line.map_code_ofTexts, List.length_take, List.length_map]
    omega
  have above_feedless : ∀ code ∈ (mask texts).take (heading.line.number - 1), '\n' ∉ code :=
    fun code mem => Mask.feedless_linesFrom feedless .code code (List.mem_of_mem_take mem)
  have attributes_feedless : '\n' ∉ heading.attributes := by
    intro mem
    have line_feedless := numbered.feedless_code _ (List.mem_map_of_mem heading.line_mem)
    rw [heading.code_eq] at line_feedless
    exact line_feedless (List.mem_append_left _ mem)
  rw [lead, lineFeeds_append, lineFeeds_terminated above_feedless,
    lineFeeds_eq_zero attributes_feedless, count_eq]
  omega

end Heading

/-- Where the parts of a function stand in the masked text of its source. -/
structure Frame (texts : List (List Char)) (function : Function) extends
    Heading texts function where
  /-- The text between the name and the parameter list. -/
  generics : List Char
  /-- The text of the parameter list. -/
  list : List Char
  /-- The text behind the parameter list. -/
  after : List Char
  /-- The first opening brace or semicolon outside all brackets behind the parameter list. -/
  opener : Stop
  text_eq : joinLines (mask texts) =
    toHeading.lead ++ (toHeading.title ++ (generics ++ '(' :: (list ++ ')' :: after)))
  grouped : firstGroup (generics ++ '(' :: (list ++ ')' :: after)) = .found generics list after
  params_eq : function.params = Param.readAll list
  started : bodyStart? after = some opener

namespace Frame

variable {texts : List (List Char)} {function : Function}

/-- A function has one frame at most. -/
theorem unique (feedless : ∀ text ∈ texts, '\n' ∉ text) (frame other : Frame texts function) :
    frame = other := by
  obtain ⟨⟨line, attributes, found, line_mem, number_eq, code_eq, matched, name_eq⟩, generics,
    list, after, opener, text_eq, grouped, params_eq, started⟩ := frame
  obtain ⟨⟨line', attributes', found', line_mem', number_eq', code_eq', matched', name_eq'⟩,
    generics', list', after', opener', text_eq', grouped', params_eq', started'⟩ := other
  obtain rfl : line = line' := (Line.numbered_ofTexts feedless).eq_of_number_eq line_mem line_mem'
    (by omega)
  obtain rfl : attributes = attributes' := List.append_cancel_right (code_eq.symm.trans code_eq')
  obtain rfl : found = found' := Option.some.inj (matched.symm.trans matched')
  have rest_eq := List.append_cancel_left (text_eq.symm.trans text_eq')
  rw [List.append_cancel_left rest_eq] at grouped
  obtain ⟨rfl, rfl, rfl⟩ := GroupSearch.found.inj (grouped.symm.trans grouped')
  obtain rfl : opener = opener' := Option.some.inj (started.symm.trans started')
  rfl

/-- The masked text in front of the opener. -/
def front (frame : Frame texts function) : List Char :=
  frame.lead ++
    (frame.title ++ (frame.generics ++ '(' :: (frame.list ++ ')' :: frame.opener.before)))

/-- The function ends where its frame says: with the semicolon, or with the brace that matches the
opener. -/
structure Ends (frame : Frame texts function) : Prop where
  occupies : function.extent.Occupies texts function.definition
  at_semicolon : frame.opener.visit.char = ';' →
    function.extent.last = lineFeeds frame.front + 1
  at_brace : frame.opener.visit.char = '{' →
    ∃ inner rest, frame.opener.after = inner ++ '}' :: rest ∧
      (∀ part, part <+: inner → 0 < braceDepth ('{' :: part)) ∧
      braceDepth ('{' :: inner ++ ['}']) = 0 ∧
      function.extent.last = lineFeeds (frame.front ++ '{' :: inner) + 1

/-- A function ends where its last line is found behind the opener. -/
theorem ends_of_lastLine {frame : Frame texts function} {index feeds last number : Nat}
    (occupies : function.extent.Occupies texts function.definition)
    (extent_eq : function.extent = ⟨index + 1, index + 1 + last⟩)
    (front_feeds : lineFeeds frame.front = index + feeds)
    (closed : (if frame.opener.visit.char = '{' then
        match closeBrace? 0 frame.opener.after with
        | none => .error (StructureFault.openBlock number)
        | some (inner, _) => .ok (feeds + lineFeeds inner)
      else .ok feeds) = Except.ok last) : frame.Ends where
  occupies := occupies
  at_semicolon := by
    intro semicolon
    rw [if_neg (by rw [semicolon]; decide)] at closed
    rw [extent_eq, front_feeds, ← Except.ok.inj closed]
    dsimp only
    omega
  at_brace := by
    intro brace
    rw [if_pos brace] at closed
    cases body : closeBrace? 0 frame.opener.after with
    | none => simp [body] at closed
    | some parts =>
        obtain ⟨inner, rest⟩ := parts
        have nested := nested_of_closeBrace? body
        rw [body] at closed
        refine ⟨inner, rest, append_of_closeBrace? body, fun _ => nested.braceDepth_pos,
          nested.braceDepth_eq, ?_⟩
        rw [extent_eq, lineFeeds_append, lineFeeds_cons_of_ne (by decide), front_feeds,
          ← Except.ok.inj closed]
        dsimp only
        omega

end Frame

theorem Signature.exists_group_of_find {name : String} {line : Nat} {text : List Char}
    {signature : Signature} (found : find name line text = .ok signature) :
    ∃ generics after opener,
      firstGroup text = .found generics signature.params after ∧
      bodyStart? after = some opener ∧ signature.opener = opener.visit.char ∧
      signature.bodyOffset =
        (generics ++ '(' :: (signature.params ++ ')' :: opener.before)).length := by
  unfold find at found
  split at found
  · contradiction
  · contradiction
  next generics params after grouped =>
    split at found
    · contradiction
    next opener started =>
      obtain rfl := Except.ok.inj found
      refine ⟨generics, after, opener, grouped, started, rfl, ?_⟩
      simp only [List.length_append, List.length_cons]
      omega

section Reading

variable {texts : List (List Char)} {target : List Char} {above later : List Line} {line : Line}
  {function : Function} {last : Nat}

/-- A header that is matched on a line of a source makes a heading there. -/
theorem exists_heading_of_match {found : Match} (feedless : ∀ text ∈ texts, '\n' ∉ text)
    (cut : Line.ofTexts texts = above ++ line :: later)
    (matched : header.match? (line.codeFrom line.item) = some found)
    (number_eq : function.line = line.number)
    (name_eq : function.name = String.ofList found.captured) :
    ∃ heading : Heading texts function,
      heading.title = (line.codeFrom line.item).take found.stop.offset ∧
      lineFeeds heading.lead = above.length ∧
      joinLines (mask texts) =
        heading.lead ++ joinLines (line.codeFrom line.item :: later.map (·.code)) := by
  obtain ⟨attributes, -, -, -, code_eq⟩ := line.codeFrom_eq_append line.item_suffix_trim
  have line_mem : line ∈ Line.ofTexts texts := by
    rw [cut]
    exact List.mem_append_right _ List.mem_cons_self
  let heading : Heading texts function :=
    { line, attributes, found, line_mem, number_eq, code_eq, matched, name_eq }
  have above_count : line.number = above.length + 1 := (Excerpt.of_cut feedless cut).number_eq
  have lead_feeds := heading.lineFeeds_lead feedless
  have masked_above : (mask texts).take (line.number - 1) = above.map (·.code) := by
    rw [above_count, Nat.add_sub_cancel, ← Line.map_code_ofTexts, cut, List.map_append,
      List.take_left' (List.length_map _)]
  refine ⟨heading, rfl, ?_, ?_⟩
  · change lineFeeds heading.lead + 1 = line.number at lead_feeds
    omega
  · change joinLines (mask texts) =
      terminated ((mask texts).take (line.number - 1)) ++ attributes ++ joinLines _
    rw [masked_above, ← Line.map_code_ofTexts, cut, List.map_append, List.map_cons,
      joinLines_append, joinLines_cons, joinLines_cons, List.append_assoc,
      ← List.append_assoc attributes, ← code_eq]

/-- A function that is read from all lines below its header has a frame, in which it ends. -/
theorem exists_frame_of_read (feedless : ∀ text ∈ texts, '\n' ∉ text)
    (cut : Line.ofTexts texts = above ++ line :: later)
    (read : read target line.item line later = .ok (function, last)) :
    ∃ frame : Frame texts function, frame.Ends := by
  have excerpt := Excerpt.of_cut feedless cut
  obtain ⟨-, extent_eq, occupies⟩ := occupies_of_read excerpt read
  obtain ⟨found, matched, done⟩ := read_eq_ok read
  obtain ⟨signature, signed, closed, function_eq⟩ := readFound_eq_ok done
  obtain ⟨generics, after, opener, grouped, started, opener_eq, offset_eq⟩ :=
    Signature.exists_group_of_find signed
  have number_eq : function.line = line.number := by rw [function_eq]
  have name_eq : function.name = String.ofList found.captured := by rw [function_eq]
  obtain ⟨heading, title_eq, lead_feeds, text_eq⟩ :=
    exists_heading_of_match feedless cut matched number_eq name_eq
  have name_le := Pattern.offset_le_of_match? matched
  have rest_eq := append_of_firstGroup grouped
  have joined_eq : joinLines (line.codeFrom line.item :: later.map (·.code)) =
      heading.title ++ (generics ++ '(' :: (signature.params ++ ')' :: after)) := by
    rw [← rest_eq, title_eq, joinLines_cons, List.drop_append_of_le_length name_le,
      ← List.append_assoc, List.take_append_drop]
  let frame : Frame texts function := {
    toHeading := heading
    generics, after, opener, started
    list := signature.params
    text_eq := by rw [text_eq, joined_eq]
    grouped := by rwa [← rest_eq]
    params_eq := by rw [function_eq] }
  let front := heading.title ++ (generics ++ '(' :: (signature.params ++ ')' :: opener.before))
  have front_feeds : lineFeeds frame.front = above.length + lineFeeds front := by
    change lineFeeds (heading.lead ++ front) = _
    rw [lineFeeds_append, lead_feeds]
  have whole : joinLines (line.codeFrom line.item :: later.map (·.code)) =
      front ++ opener.visit.char :: opener.after := by
    rw [joined_eq, (append_of_bodyStart? started).1]
    simp only [front, List.append_assoc, List.cons_append]
  have front_length : found.stop.offset + signature.bodyOffset = front.length := by
    have title_length : heading.title.length = found.stop.offset := by
      rw [title_eq, List.length_take_of_le name_le]
    rw [offset_eq, ← title_length, ← List.length_append]
  have codes_feedless : ∀ code ∈ line.codeFrom line.item :: later.map (·.code), '\n' ∉ code :=
    List.forall_mem_cons.mpr ⟨Line.feedless_codeFrom excerpt.numbered.2.2.1 line.item,
      excerpt.tail.numbered.feedless_code⟩
  have solid : opener.visit.char ≠ '\n' := opener_eq ▸ Signature.opener_ne_newline signed
  rw [front_length, opener_eq, lastLine_eq_closeBrace? codes_feedless whole solid] at closed
  exact ⟨frame, Frame.ends_of_lastLine occupies extent_eq front_feeds closed⟩

end Reading

end Function

namespace Contract

variable {source path : String} {contract : Contract}

/-- Every recorded function ends on the line of the semicolon or of the closing brace of its
body. -/
theorem ends_of_parse (parsed : parse source path = .ok contract) {function : Function}
    (mem : function ∈ contract.functions) :
    ∃ frame : function.Frame (linesOf source), frame.Ends := by
  obtain ⟨target, above, line, later, below, last, cut, -, read⟩ :=
    exists_read_of_mem_functions parsed mem
  have feedless : ∀ text ∈ linesOf source, '\n' ∉ text :=
    fun text mem => (oneLine_of_mem_splitLines mem).feedless
  have excerpt := Excerpt.of_ofTexts feedless cut
  rw [List.append_assoc, List.cons_append] at cut
  exact Function.exists_frame_of_read feedless cut (Function.read_append excerpt read below)

/-- A semicolon stands in the parameter list and in the return type, and braces in the body. -/
theorem ends_of_parse_arrays :
    let definition :=
      "  pub fn f(
    a: [u8; 2],
  ) -> [u8; 2] {
    if b { c(); }
    a }"
    let block := "impl A \x7b
" ++ definition ++ " fn g();
\x7d"
    let source := "#[contract]
struct A;
#[contractimpl]
" ++ block ++ "
"
    let function : Function :=
      ⟨"f", [⟨"a", "[u8; 2]"⟩], some "[u8; 2]", .pub, false, 5, definition ++ " fn g();"⟩
    let contract : Contract :=
      ⟨"A", [⟨"A", [], 2, "struct A;"⟩], [⟨"A", [function], 4, block⟩], source, "a.rs"⟩
    parse source "a.rs" = .ok contract ∧ function ∈ contract.functions ∧
      ∃ frame : function.Frame (linesOf source), frame.Ends := by
  intro definition block source function contract
  have parsed : parse source "a.rs" = .ok contract := by decide +kernel
  have mem : function ∈ contract.functions := List.mem_singleton.mpr rfl
  exact ⟨parsed, mem, ends_of_parse parsed mem⟩

end Contract
end SorobanLint
