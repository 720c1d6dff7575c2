import SorobanLint.Proofs.Brackets.Group
import SorobanLint.Proofs.Nesting
import SorobanLint.Proofs.Render.Balance
import SorobanLint.Proofs.Render.Source

/-!
# Rendered functions

A function that is rendered with its signature on one line is read as it was: the parameter list is
split between the parameters, the return type ends at the opening brace, and the body ends at the
line of the closing one (`Function.read_eq`).
-/

namespace SorobanLint

open Text SorobanLint.Bracket Pattern

/-- A parameter to be rendered. -/
structure ParamDecl where
  /-- The name. -/
  name : Ident
  /-- The type. -/
  type : TypeExpr
  not_self : name.text ≠ "self".toList

/-- A function to be rendered. -/
structure FunctionDecl where
  /-- Whether the function is marked `pub`. -/
  visibility : Visibility
  /-- The name. -/
  name : Ident
  /-- The parameters in order. -/
  params : List ParamDecl
  /-- The return type, if there is one. -/
  result : Option TypeExpr
  /-- The lines of the body. -/
  body : List (List Char)
  result_where : ∀ type ∈ result, "where".toList ∉ type.words
  body_plain : ∀ line ∈ body, ∀ c ∈ line, isPlain c = true
  body_nested : Nested body.flatten

namespace ParamDecl

/-- The entry of the parameter list. -/
def text (param : ParamDecl) : List Char :=
  param.name.ascribe param.type

/-- The parameter that is to be read. -/
def model (param : ParamDecl) : Param :=
  ⟨String.ofList param.name.text, String.ofList param.type.text⟩

end ParamDecl

namespace FunctionDecl

variable (function : FunctionDecl)

/-- The parameter list. -/
def paramList : List Char := commaList (function.params.map ParamDecl.text)

/-- The text between the parameter list and the opening brace. -/
def tail : List Char :=
  match function.result with
  | none => [' ']
  | some type => " -> ".toList ++ type.text ++ [' ']

/-- The header up to the name. -/
def title : List Char := function.visibility.text ++ ("fn ".toList ++ function.name.text)

/-- The header without its opening brace. -/
def signature : List Char := function.title ++ '(' :: (function.paramList ++ ')' :: function.tail)

/-- The line of the header. -/
def header : List Char := "    ".toList ++ (function.signature ++ ['{'])

/-- The lines from the header to the closing brace. -/
def lines : List (List Char) :=
  function.header :: (function.body ++ ["    \x7d".toList])

/-- Whether the function sets up a contract of the given name: it has the name of a constructor, or
its return type mentions `Self` or the contract. -/
def isConstructor (target : Ident) : Bool :=
  Function.constructorNames.contains function.name.text ||
    function.result.any fun type =>
      type.words.contains "Self".toList || type.words.contains target.text

/-- The function, in a block for the given type, whose header stands on the given line. -/
def model (target : Ident) (line : Nat) : Function where
  name := String.ofList function.name.text
  params := function.params.map ParamDecl.model
  returnType := function.result.map fun type => String.ofList type.text
  visibility := function.visibility
  isConstructor := function.isConstructor target
  line := line
  definition := String.ofList (joinLines function.lines)

end FunctionDecl

/-! ## Parameters -/

theorem Pattern.fails_edge {reach : Reach} (inside : reach.place.atWordEdge = false) :
    Pattern.edge.Fails reach := by
  simp [Fails, ends, inside]

namespace Param

/-- The reference in front of a receiver. -/
def reference : Pattern := .all ["&", .spaces, .maybe (.all ["'", .word, .gap])]

theorem receiver_eq : receiver = .all [.maybe reference, .maybe mutMark, "self", .edge] := rfl

/-- What stands behind a keyword at the beginning of an entry is no blank. -/
theorem solid_behind {keyword behind rest : List Char} (name : Ident)
    (word : ∀ d ∈ keyword, isIdentRest d = true)
    (whole : name.text ++ ':' :: rest = keyword ++ behind) :
    ∀ c ∈ behind.head?, isBlank c = false := by
  intro c head_eq
  rcases split_keyword whole name.isIdentRest_of_mem (by decide) word with
    ⟨-, rfl⟩ | ⟨d, more, rfl, inside⟩
  · obtain rfl := Option.mem_some.mp head_eq
    decide
  · obtain rfl := Option.mem_some.mp head_eq
    exact isBlank_of_isIdentRest inside

theorem mutMark_fails (name : Ident) (rest before : List Char) (group : Option (Place × Place)) :
    mutMark.Fails ⟨⟨before, name.text ++ ':' :: rest⟩, group⟩ := by
  refine fails_seq ?_
  rintro ⟨⟨passed, behind⟩, other⟩ mem
  obtain ⟨after_eq, -⟩ := eq_of_mem_ends_text mem
  exact fails_gap (solid_behind name (forall_mem_of_all rfl) after_eq) passed other

theorem selfMark_fails (name : Ident) (other : name.text ≠ "self".toList) (rest before : List Char)
    (group : Option (Place × Place)) :
    (Pattern.all ["self", .edge]).Fails ⟨⟨before, name.text ++ ':' :: rest⟩, group⟩ := by
  refine fails_seq ?_
  rintro ⟨⟨passed, behind⟩, group⟩ mem
  obtain ⟨after_eq, before_eq⟩ := eq_of_mem_ends_text mem
  rcases split_keyword after_eq name.isIdentRest_of_mem (by decide) (forall_mem_of_all rfl) with
    ⟨same, -⟩ | ⟨d, more, behind_eq, inside⟩
  · exact absurd same other
  · refine (fails_edge ?_).all_cons _
    rw [Place.atWordEdge]
    dsimp only at before_eq behind_eq ⊢
    rw [before_eq, behind_eq]
    simp [isWord_of_isIdentRest inside]
    decide

/-- A parameter is no receiver unless it is named `self`. -/
theorem receiver_isHeadOf (name : Ident) (other : name.text ≠ "self".toList) (rest : List Char) :
    receiver.isHeadOf (name.text ++ ':' :: rest) = false := by
  have head_ne : ∀ c ∈ (name.text ++ ':' :: rest).head?, c ≠ '&' := by
    intro c mem
    obtain rfl := Option.mem_some.mp mem
    exact ne_of_isIdentRest (name.isIdentRest_of_mem _ List.mem_cons_self) (by decide)
  have no_reference : reference.Fails ⟨.start (name.text ++ ':' :: rest), none⟩ :=
    (fails_text_cons head_ne [] [] none).all_cons _
  have absent : receiver.Fails ⟨.start (name.text ++ ':' :: rest), none⟩ := by
    rw [receiver_eq]
    exact no_reference.maybe_all
      ((mutMark_fails name rest [] none).maybe_all (selfMark_fails name other rest [] none))
  rw [isHeadOf, match?, absent.matchAt?_eq]
  rfl

end Param

namespace ParamDecl

variable (param : ParamDecl)

theorem spaced : Spaced param.text := param.name.ascribe_spaced param.type

theorem balanced : Balanced param.text := param.name.ascribe_balanced param.type

/-- A parameter is read from its entry. -/
theorem parse?_eq : Param.parse? param.text = some param.model := by
  have no_receiver : Param.receiver.isHeadOf param.text = false :=
    Param.receiver_isHeadOf param.name param.not_self _
  have no_mut : Param.mutMark.Fails ⟨.start param.name.text, none⟩ := by
    refine fails_seq ?_
    rintro ⟨⟨passed, behind⟩, other⟩ mem
    obtain ⟨after_eq, -⟩ := eq_of_mem_ends_text mem
    have name_eq : param.name.text = "mut".toList ++ behind := after_eq
    refine fails_gap ?_ passed other
    intro c head_eq
    have inside : c ∈ param.name.text := by
      rw [name_eq]
      exact List.mem_append_right _ (List.mem_of_mem_head? head_eq)
    exact isBlank_of_isIdentRest (param.name.isIdentRest_of_mem c inside)
  have unmarked : Param.mutMark.match? param.name.text = none := no_mut.matchAt?_eq
  have type_eq : trim (' ' :: param.type.text) = param.type.text := by
    rw [trim_cons_blank (by decide), param.type.spaced.trim_eq]
  rw [Param.parse?, param.spaced.squeeze_eq, no_receiver]
  simp only [text, Ident.ascribe, Ident.takeWhile_colon, Ident.dropWhile_colon,
    param.name.spaced.trim_eq, unmarked, type_eq]
  rfl

end ParamDecl

/-! ## Signatures -/

section Signatures

variable {entries : List (List Char)}

/-- The slices of a list between its commas. -/
theorem Bracket.slicesFrom_commaList {entry : List Char} (balanced : Balanced entry)
    (rest_balanced : ∀ next ∈ entries, Balanced next) (previous : Option Char) :
    slicesFrom (· = ',') [] previous (commaList (entry :: entries)) =
      entry :: entries.map (' ' :: ·) := by
  -- The space behind a comma stands in the next slice, so the first entry may be any balanced text.
  induction entries generalizing entry previous with
  | nil =>
      rw [commaList_singleton, balanced.slicesFrom_end]
      rfl
  | cons next entries ih =>
      rw [List.forall_mem_cons] at rest_balanced
      have space : Balanced [' '] := .of_plain (forall_mem_of_all rfl) (List.cons_ne_nil _ _)
      have next_balanced : Balanced (' ' :: next) := space.append rest_balanced.1
      have lead : ' ' :: commaList (next :: entries) = commaList ((' ' :: next) :: entries) := by
        cases entries <;> rfl
      rw [commaList_cons_cons, balanced.slicesFrom_comma, lead,
        ih next_balanced rest_balanced.2, List.map_cons]

/-- A list of entries is split into its entries. -/
theorem Bracket.splitCommas_commaList (balanced : ∀ entry ∈ entries, Balanced entry)
    (spaced : ∀ entry ∈ entries, Spaced entry) : splitCommas (commaList entries) = entries := by
  have kept : entries.filter (· ≠ []) = entries :=
    List.filter_eq_self.mpr fun entry mem => by simpa using (spaced entry mem).ne_nil
  cases entries with
  | nil => rfl
  | cons entry rest =>
      rw [List.forall_mem_cons] at balanced spaced
      have trimmed : (rest.map (' ' :: ·)).map trim = rest.map id := by
        rw [List.map_map]
        refine List.map_congr_left fun next mem => ?_
        rw [Function.comp_apply, trim_cons_blank (by decide), (spaced.2 next mem).trim_eq, id]
      rw [splitCommas, splitWhere, slices, slicesFrom_commaList balanced.1 balanced.2,
        List.map_cons, trimmed, List.map_id, spaced.1.trim_eq, kept]

theorem Bracket.wellNested_commaList (balanced : ∀ entry ∈ entries, Balanced entry) :
    WellNested (commaList entries) := by
  obtain ⟨last, -, crosses⟩ := crosses_commaList balanced [] none []
  exact wellNested_iff.mpr (crosses.realRun?_eq fun _ within => within.fits)

/-- A list of entries in parentheses is the first group. -/
theorem Bracket.firstGroup_eq (balanced : ∀ entry ∈ entries, Balanced entry) (after : List Char) :
    firstGroup ('(' :: (commaList entries ++ ')' :: after)) =
      .found [] (commaList entries) after := by
  refine firstGroup_eq_found_iff.mpr {
    text_eq := rfl
    fits := nofun
    first := nofun
    outside := ?_
    nested := wellNested_commaList balanced }
  rintro visit ⟨⟩
  rfl

/-- The body starts at the brace behind a balanced text. -/
theorem Bracket.bodyStart?_eq {tail : List Char} (balanced : Balanced tail) (rest : List Char) :
    bodyStart? (tail ++ '{' :: rest) = some ⟨tail, ⟨'{', [], [brace]⟩, rest⟩ := by
  obtain ⟨c, -, crosses⟩ := balanced.crosses [] none ('{' :: rest)
  have misses : ∀ visit : Visit, visit.Above [] →
      ((decide (visit.char = '{') || decide (visit.char = ';')) && decide (visit.before = [])) =
        false := by
    intro visit above
    by_cases separator : visit.char = ';'
    · have deeper := above.separator_deeper (by rw [separator]; rfl)
      simp [deeper]
    · simp [above.opens_no_brace, separator]
  have opener : stopFrom? (fun visit => (visit.char = '{' || visit.char = ';') && visit.before = [])
      [] (some c) ('{' :: rest) = some ⟨[], ⟨'{', [], [brace]⟩, rest⟩ := by
    rw [stopFrom?]
    rfl
  rw [bodyStart?, stop?, crosses.stopFrom?_eq misses, opener, Option.map_some, List.append_nil]

end Signatures

namespace Function

/-- The last line of a function whose body begins at the end of the first line. -/
theorem lastLine_eq {signature closing : List Char} {body : List (List Char)}
    (feedless : '\n' ∉ signature) (nested : Nested body.flatten)
    (closes : depthAfter? 1 closing = none) (line : Nat) (rest : List (List Char)) :
    lastLine ((signature ++ ['{']) :: (body ++ closing :: rest)) line signature.length '{' =
      .ok (body.length + 1) := by
  have front : (joinLines ((signature ++ ['{']) :: (body ++ closing :: rest))).take
      signature.length = signature := by
    rw [joinLines_cons, List.append_assoc]
    exact List.take_left' rfl
  have first_line : lineFeeds signature.reverse = 0 :=
    lineFeeds_eq_zero fun mem => feedless (List.mem_reverse.mp mem)
  have column : (signature.reverse.takeWhile (· ≠ '\n')).reverse.length = signature.length := by
    rw [List.takeWhile_eq_self_iff.mpr, List.reverse_reverse]
    intro c mem
    simp only [decide_eq_true_eq]
    rintro rfl
    exact feedless (List.mem_reverse.mp mem)
  have opener : (signature ++ ['{']).drop signature.length = ['{'] := List.drop_left' rfl
  simp only [lastLine, front, Place.line, Place.lineBefore, first_line, column, List.drop_zero,
    opener, if_true, closingLine?_opener nested closes, Nat.zero_add]

end Function

namespace FunctionDecl

variable (function : FunctionDecl)

theorem returnType?_tail :
    Function.returnType? function.tail = function.result.map TypeExpr.text := by
  rw [tail]
  cases result_eq : function.result with
  | none => rfl
  | some type =>
      have no_where : (whole "where".toList).occursIn (' ' :: type.text ++ [' ']) = false := by
        rw [Bool.eq_false_iff, Ne, occursIn_whole (forall_mem_of_all rfl) (by decide),
          runs_concat (by decide), runs_cons (by decide), type.runs_text]
        exact function.result_where type result_eq
      have squeezed : squeeze (' ' :: type.text ++ [' ']) = type.text := by
        rw [squeeze_concat_blank (by decide), squeeze_cons_blank (by decide),
          type.spaced.squeeze_eq]
      have nonempty : type.text.isEmpty = false := List.isEmpty_eq_false_iff.mpr type.spaced.ne_nil
      have arrow : trimStart (" -> ".toList ++ type.text ++ [' ']) =
          '-' :: '>' :: (' ' :: type.text ++ [' ']) := rfl
      simp only [Function.returnType?, arrow, textBefore_eq no_where, squeezed, nonempty]
      rfl

theorem isSetUp_eq (target : Ident) :
    Function.isSetUp function.name.text (function.result.map TypeExpr.text) target.text =
      function.isConstructor target := by
  have mentions (word : List Char) (inside : ∀ c ∈ word, isWord c = true) (nonempty : word ≠ [])
      (type : TypeExpr) : (whole word).occursIn type.text = type.words.contains word := by
    rw [Bool.eq_iff_iff, occursIn_whole inside nonempty, type.runs_text, List.contains_iff_mem]
  have word : ∀ c ∈ target.text, isWord c = true :=
    fun c mem => isWord_of_isIdentRest (target.isIdentRest_of_mem c mem)
  have nonempty : target.text.isEmpty = false :=
    List.isEmpty_eq_false_iff.mpr target.text_ne_nil
  unfold Function.isSetUp isConstructor
  cases function.result with
  | none => rfl
  | some type =>
      have listed : ("Self".toList :: if target.text.isEmpty then [] else [target.text]) =
          ["Self".toList, target.text] := by rw [nonempty, if_neg Bool.false_ne_true]
      simp only [Option.map_some, Option.any_some, listed, List.any_cons, List.any_nil,
        Bool.or_false, mentions "Self".toList (forall_mem_of_all rfl) (by decide),
        mentions target.text word target.text_ne_nil]

theorem readAll_paramList :
    Param.readAll function.paramList = function.params.map ParamDecl.model := by
  have balanced : ∀ entry ∈ function.params.map ParamDecl.text, Balanced entry :=
    List.forall_mem_map.mpr fun param _ => param.balanced
  have spaced : ∀ entry ∈ function.params.map ParamDecl.text, Spaced entry :=
    List.forall_mem_map.mpr fun param _ => param.spaced
  have parsed : Param.parse? ∘ ParamDecl.text = some ∘ ParamDecl.model :=
    funext ParamDecl.parse?_eq
  rw [Param.readAll, paramList, splitCommas_commaList balanced spaced, List.filterMap_map, parsed,
    List.filterMap_eq_map]

theorem tail_balanced : Balanced function.tail := by
  have space : Balanced [' '] := .of_plain (forall_mem_of_all rfl) (List.cons_ne_nil _ _)
  rw [tail]
  cases function.result with
  | none => exact space
  | some type => exact (Balanced.arrow.append type.balanced).append space

/-- The signature is found behind the name. -/
theorem find_eq (name : String) (line : Nat) (rest : List Char) :
    Function.Signature.find name line
        ('(' :: (function.paramList ++ ')' :: (function.tail ++ '{' :: rest))) =
      .ok ⟨function.paramList, function.tail,
        function.paramList.length + 2 + function.tail.length, '{'⟩ := by
  have balanced : ∀ entry ∈ function.params.map ParamDecl.text, Balanced entry :=
    List.forall_mem_map.mpr fun param _ => param.balanced
  have group := firstGroup_eq balanced (function.tail ++ '{' :: rest)
  rw [← paramList] at group
  simp only [Function.Signature.find, group, bodyStart?_eq function.tail_balanced, List.length_nil,
    Nat.zero_add]

theorem isTypeChar_of_mem : ∀ c ∈ function.signature, isTypeChar c = true := by
  have list_chars : ∀ c ∈ function.paramList, isTypeChar c = true :=
    forall_mem_commaList (by decide) (by decide)
      (List.forall_mem_map.mpr fun param _ => param.name.isTypeChar_of_mem_ascribe param.type)
  have tail_chars : ∀ c ∈ function.tail, isTypeChar c = true := by
    rw [tail]
    cases function.result with
    | none => exact forall_mem_of_all rfl
    | some type =>
        simp only [List.forall_mem_append]
        exact ⟨⟨forall_mem_of_all rfl, type.isTypeChar_of_mem⟩, forall_mem_of_all rfl⟩
  simp only [signature, title, List.forall_mem_append, List.forall_mem_cons]
  exact ⟨⟨function.visibility.isTypeChar_of_mem, forall_mem_of_all rfl,
    function.name.isTypeChar_of_mem⟩, by decide, list_chars, by decide, tail_chars⟩

theorem header_spaced : Spaced (function.signature ++ ['{']) := by
  have title_spaced : Spaced function.title := by
    have mark : Spaced "pub".toList := .of_word rfl
    have keyword : Spaced "fn".toList := .of_word rfl
    have named := keyword.append_space function.name.spaced
    rw [title]
    cases function.visibility with
    | pub => exact mark.append_space named
    | priv => exact named
  have list_spaced : Spaced ('(' :: function.paramList ++ [')']) := by
    have spaced : ∀ entry ∈ function.params.map ParamDecl.text, Spaced entry :=
      List.forall_mem_map.mpr fun param _ => param.spaced
    rw [paramList]
    exact spaced_enclosed (by decide) (by decide) spaced
  have front : Spaced (function.title ++ ('(' :: function.paramList ++ [')'])) :=
    title_spaced.append list_spaced
  have brace : Spaced ['{'] := .single (by decide)
  have whole : Spaced ((function.title ++ ('(' :: function.paramList ++ [')'])) ++
      (function.tail ++ ['{'])) := by
    rw [tail]
    cases function.result with
    | none => exact front.append_space brace
    | some type =>
        have arrow : Spaced ("->".toList ++ ' ' :: (type.text ++ ' ' :: ['{'])) :=
          Spaced.append_space (.of_word rfl) (type.spaced.append_space brace)
        have shown := front.append_space arrow
        simpa using shown
  simpa [signature] using whole

theorem codeFrom_header (n : Nat) :
    Line.codeFrom ⟨n, function.header, function.header⟩ (function.signature ++ ['{']) =
      function.signature ++ ['{'] := by
  have indented : trimEnd function.header = function.header := by
    obtain ⟨front, c, front_eq, solid⟩ := function.header_spaced.last_solid
    rw [header, front_eq, ← List.append_assoc]
    exact trimEnd_concat solid _
  have lead : function.header.length - (function.signature ++ ['{']).length = 4 := by
    simp [header]
  rw [Line.codeFrom, indented, lead]
  rfl

theorem signature_split (rest : List Char) :
    function.signature ++ rest = function.visibility.text ++ ("fn ".toList ++ (function.name.text ++
      '(' :: (function.paramList ++ ')' :: (function.tail ++ rest)))) := by
  simp [signature, title]

theorem drop_title (rest : List Char) :
    (function.signature ++ rest).drop function.title.length =
      '(' :: (function.paramList ++ ')' :: (function.tail ++ rest)) := by
  rw [signature, List.append_assoc, List.drop_left' rfl]
  simp

/-- The header is found on its line, up to the parameter list. -/
theorem header_match? : ∃ found,
    Function.header.match? (function.signature ++ ['{']) = some found ∧
      found.captured = function.name.text ∧ found.stop.offset = function.title.length := by
  rw [signature_split]
  exact Function.header_match? function.visibility function.name _

theorem visibility_split :
    (Visibility.split (function.signature ++ ['{'])).1 = function.visibility := by
  rw [signature_split]
  exact congrArg Prod.fst (function.visibility.split_text
    (Visibility.unmarked_of_ne (c := 'f') (by decide) (by decide) (by decide) _))

/-- A function is read as it was rendered, and its last line is that of its closing brace. -/
theorem read_eq (target : Ident) (n : Nat) (rest : List (List Char)) :
    Function.read target.text (function.signature ++ ['{']) ⟨n, function.header, function.header⟩
        (Line.plain (n + 1) (function.body ++ "    \x7d".toList :: rest)) =
      .ok (function.model target n, function.body.length + 1) := by
  obtain ⟨later, later_eq⟩ : ∃ later, later = function.body ++ "    \x7d".toList :: rest := ⟨_, rfl⟩
  obtain ⟨found, matched, captured, title_eq⟩ := function.header_match?
  have behind_title : (joinLines ((function.signature ++ ['{']) :: later)).drop found.stop.offset =
      '(' :: (function.paramList ++
        ')' :: (function.tail ++ '{' :: later.flatMap ('\n' :: ·))) := by
    rw [joinLines_cons, title_eq, List.append_assoc, drop_title]
    rfl
  have brace_offset : found.stop.offset + (function.paramList.length + 2 + function.tail.length) =
      function.signature.length := by
    rw [title_eq, signature]
    simp only [List.length_append, List.length_cons]
    omega
  have feedless : '\n' ∉ function.signature :=
    not_mem_of_isTypeChar function.isTypeChar_of_mem (by decide)
  have closes : depthAfter? 1 "    \x7d".toList = none := by decide
  have last_eq := Function.lastLine_eq feedless function.body_nested closes n rest
  have definition_eq : Line.rawThrough (Line.plain n (function.header :: later))
      (function.body.length + 1) = String.ofList (joinLines function.lines) := by
    have length_eq : function.lines.length = function.body.length + 1 + 1 := by simp [lines]
    have whole : function.header :: later = function.lines ++ rest := by simp [lines, later_eq]
    rw [Line.rawThrough_plain, whole, List.take_left' length_eq]
  rw [Line.plain_cons] at definition_eq
  rw [← later_eq] at last_eq ⊢
  rw [Function.read]
  simp only [codeFrom_header, matched]
  rw [Function.readFound, Line.map_code_plain, behind_title, find_eq]
  simp only [bind, Except.bind, brace_offset, last_eq, captured, returnType?_tail, isSetUp_eq,
    readAll_paramList, visibility_split, definition_eq, Option.map_map]
  rfl

end FunctionDecl
end SorobanLint
