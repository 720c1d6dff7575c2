import SorobanLint.Proofs.Brackets.Angles
import SorobanLint.Proofs.Reads
import SorobanLint.Proofs.Render.Header

/-!
# The type of a block

The header of a block names its generic parameters with their bounds, a trait, and the path of the
type with its arguments and conditions (`ImplHeader.text`).  The type is found by cuts: behind the
list of the generic parameters (`ImplHeader.subject_eq`), in front of `where`, behind `for`, and in
front of the arguments.  Each cut falls where that part ends, so the last segment of the path is
left (`ImplBlock.targetOf_text`).
-/

namespace SorobanLint

open Text Pattern

/-! ## Headers -/

/-- A generic parameter with its bounds. -/
structure GenericParam where
  /-- The name. -/
  name : Ident
  /-- The bounds behind the colon, if there are any. -/
  bounds : List TypeExpr

/-- The header of a block. -/
structure ImplHeader where
  /-- The generic parameters, in angle brackets unless there are none. -/
  generics : List GenericParam
  /-- The trait in front of `for`. -/
  trait : Option TypeExpr
  /-- Whether the trait is implemented for a reference. -/
  reference : Bool
  /-- The path of the type. -/
  path : IdentPath
  /-- The arguments of the type, in angle brackets unless there are none. -/
  args : List TypeExpr
  /-- What stands behind `where`. -/
  conditions : Option (List Char)

namespace GenericParam

/-- The name, with a colon and the bounds unless there are none. -/
def text (param : GenericParam) : List Char :=
  match param.bounds with
  | [] => param.name.text
  | bounds =>
    param.name.text ++ (": ".toList ++ " + ".toList.intercalate (bounds.map TypeExpr.text))

end GenericParam

namespace ImplHeader

/-- The type with its arguments, behind the mark of a reference. -/
def type (header : ImplHeader) : TypeExpr :=
  if header.reference then .ref (.named header.path header.args)
  else .named header.path header.args

/-- The trait with its keyword, and the type. -/
def subject (header : ImplHeader) : List Char :=
  match header.trait with
  | none => header.type.text
  | some trait => trait.text ++ " for ".toList ++ header.type.text

/-- The keyword and the generic parameters. -/
def lead (header : ImplHeader) : List Char :=
  "impl".toList ++ angleList (header.generics.map GenericParam.text)

/-- The conditions with their keyword. -/
def tail (header : ImplHeader) : List Char :=
  match header.conditions with
  | none => []
  | some conditions => " where ".toList ++ conditions

/-- The text of a header. -/
def text (header : ImplHeader) : List Char :=
  header.lead ++ ' ' :: (header.subject ++ header.tail)

/-- The identifiers and keywords of the trait and of the type. -/
def words (header : ImplHeader) : List (List Char) :=
  (header.trait.elim [] TypeExpr.words) ++ header.type.words

end ImplHeader

/-! ## Generic parameters -/

theorem Text.balanced_intercalate {separator : List Char} {entries : List (List Char)}
    (between : Bracket.Balanced separator) (nonempty : entries ≠ [])
    (balanced : ∀ entry ∈ entries, Bracket.Balanced entry) :
    Bracket.Balanced (separator.intercalate entries) := by
  induction entries with
  | nil => contradiction
  | cons entry entries ih =>
      rw [List.forall_mem_cons] at balanced
      cases entries with
      | nil =>
          rw [List.intercalate_singleton]
          exact balanced.1
      | cons next rest =>
          rw [List.intercalate_cons_cons]
          exact (balanced.1.append between).append (ih (List.cons_ne_nil next rest) balanced.2)

theorem GenericParam.balanced (param : GenericParam) : Bracket.Balanced param.text := by
  obtain ⟨name, bounds⟩ := param
  cases bounds with
  | nil => exact name.balanced
  | cons bound bounds =>
      have colon : Bracket.Balanced ": ".toList :=
        .of_plain (forall_mem_of_all rfl) (List.cons_ne_nil _ _)
      have plus : Bracket.Balanced " + ".toList :=
        .of_plain (forall_mem_of_all rfl) (List.cons_ne_nil _ _)
      have listed : ∀ entry ∈ (bound :: bounds).map TypeExpr.text, Bracket.Balanced entry :=
        List.forall_mem_map.mpr fun type _ => type.balanced
      exact name.balanced.append
        (colon.append (balanced_intercalate plus (List.cons_ne_nil _ _) listed))

/-! ## Words of a header -/

namespace ImplHeader

variable (header : ImplHeader)

theorem subject_spaced : Spaced header.subject := by
  rw [subject]
  cases header.trait with
  | none => exact header.type.spaced
  | some trait =>
      have behind : Spaced ("for".toList ++ ' ' :: header.type.text) :=
        Spaced.append_space (.of_word rfl) header.type.spaced
      have whole := trait.spaced.append_space behind
      simpa using whole

/-- What stands behind the generic parameters does not look like a list of parameters. -/
theorem subject_opens : ∃ c rest, header.subject = c :: rest ∧ c ≠ '<' := by
  rw [subject]
  cases header.trait with
  | none =>
      obtain ⟨c, rest, text_eq, -, not_angle⟩ := header.type.balanced.opens
      exact ⟨c, rest, text_eq, not_angle⟩
  | some trait =>
      obtain ⟨c, rest, text_eq, -, not_angle⟩ := trait.balanced.opens
      refine ⟨c, rest ++ " for ".toList ++ header.type.text, ?_, not_angle⟩
      dsimp only
      rw [text_eq]
      rfl

theorem runs_subject : ∀ word ∈ runs isBreak header.subject,
    word ∈ header.words ∨ word = "for".toList := by
  intro word mem
  rw [words]
  rw [subject] at mem
  cases trait_eq : header.trait with
  | none =>
      rw [trait_eq, header.type.runs_text] at mem
      exact .inl mem
  | some trait =>
      have keyword : runs isBreak "for".toList = ["for".toList] := rfl
      have whole : trait.text ++ " for ".toList ++ header.type.text =
          trait.text ++ ' ' :: ("for".toList ++ ' ' :: header.type.text) := by simp
      rw [trait_eq] at mem
      dsimp only at mem
      rw [whole, runs_append_cons (by decide), runs_append_cons (by decide), keyword,
        trait.runs_text, header.type.runs_text] at mem
      simp only [List.mem_append, List.mem_singleton, Option.elim_some] at mem ⊢
      tauto

end ImplHeader

/-! ## The last segment of a path -/

namespace Attribute

theorem segments_append_colons {s : List Char} (plain : ∀ c ∈ s, c ≠ ':') (rest : List Char) :
    segments (s ++ ':' :: ':' :: rest) = s :: segments rest := by
  induction s with
  | nil => rfl
  | cons c s ih =>
      rw [List.forall_mem_cons] at plain
      obtain ⟨d, more, behind_eq⟩ : ∃ d more, s ++ ':' :: ':' :: rest = d :: more :=
        List.exists_cons_of_ne_nil (by simp)
      have not_colons : ¬(decide (c = ':') && decide (d = ':')) = true := by simp [plain.1]
      rw [List.cons_append, behind_eq, segments, if_neg not_colons, ← behind_eq, ih plain.2]
      rfl

end Attribute

namespace IdentPath

/-- The last segment of a path. -/
def last (path : IdentPath) : Ident := path.rest.getLastD path.first

theorem segments_text (path : IdentPath) : Attribute.segments path.text = path.words := by
  obtain ⟨first, rest⟩ := path
  induction rest generalizing first with
  | nil =>
      rw [text_nil, ImplBlock.segments_of_forall first.ne_colon]
      rfl
  | cons segment rest ih =>
      rw [text_cons, Attribute.segments_append_colons first.ne_colon, ih]
      rfl

theorem lastSegment_text (path : IdentPath) : Attribute.lastSegment path.text = path.last.text := by
  rw [Attribute.lastSegment, segments_text, words, last, List.map_cons, List.getLastD_cons]
  cases path.rest using List.reverseRecOn with
  | nil => rfl
  | append_singleton rest segment _ => simp

end IdentPath

/-! ## The cuts -/

namespace ImplHeader

variable (header : ImplHeader) {trailing : List Char}

/-- Behind the type stands nothing but the keyword of the conditions, and what follows it. -/
theorem trimEnd_tail (blank : ∀ c ∈ trailing, isBlank c = true) :
    trimEnd (header.tail ++ trailing) = [] ∨
      ∃ more, trimEnd (header.tail ++ trailing) = ' ' :: ("where".toList ++ more) ∧
        more.head?.any isWord = false := by
  rw [tail]
  cases header.conditions with
  | none => exact .inl (trimEnd_append_blank blank [])
  | some conditions =>
      have whole : " where ".toList ++ conditions ++ trailing =
          " wher".toList ++ 'e' :: ' ' :: (conditions ++ trailing) := by simp
      dsimp only
      rw [whole, trimEnd_append_cons (by decide)]
      refine .inr ⟨trimEnd (' ' :: (conditions ++ trailing)), rfl, ?_⟩
      obtain ⟨blanks, trimmed⟩ := trimEnd_prefix (' ' :: (conditions ++ trailing))
      cases more_eq : trimEnd (' ' :: (conditions ++ trailing)) with
      | nil => rfl
      | cons c more =>
          rw [more_eq] at trimmed
          obtain ⟨rfl, -⟩ := List.cons.inj trimmed
          rfl

/-- Trimming goes no further than the end of the type. -/
theorem trimEnd_subject (front rest : List Char) :
    trimEnd (front ++ (header.subject ++ rest)) = front ++ (header.subject ++ trimEnd rest) := by
  obtain ⟨before, c, subject_eq, solid⟩ := header.subject_spaced.last_solid
  have whole : front ++ (header.subject ++ rest) = (front ++ before) ++ c :: rest := by
    simp [subject_eq]
  rw [whole, trimEnd_append_cons solid, subject_eq]
  simp

theorem trimEnd_trimmed (front rest : List Char) :
    trimEnd (front ++ (header.subject ++ trimEnd rest)) =
      front ++ (header.subject ++ trimEnd rest) := by
  rw [trimEnd_subject, trimEnd_of_suffix List.suffix_rfl]

/-- The space behind the keyword or the parameters is trimmed off. -/
theorem trim_space_subject (rest : List Char) :
    trim (' ' :: (header.subject ++ trimEnd rest)) = header.subject ++ trimEnd rest := by
  obtain ⟨c, more, head_eq, solid⟩ := header.subject_spaced.head_solid
  have start_eq : trimStart (header.subject ++ trimEnd rest) = header.subject ++ trimEnd rest := by
    rw [head_eq]
    exact trimStart_cons solid _
  rw [trim_cons_blank (by decide), trim, start_eq]
  exact header.trimEnd_trimmed [] rest

theorem trim_text (trailing : List Char) :
    trim (header.text ++ trailing) = "impl".toList ++
      (angleList (header.generics.map GenericParam.text) ++
        ' ' :: (header.subject ++ trimEnd (header.tail ++ trailing))) := by
  have start_eq : trimStart (header.text ++ trailing) = header.text ++ trailing :=
    trimStart_cons (by decide) _
  have end_eq := header.trimEnd_subject
    ("impl".toList ++ angleList (header.generics.map GenericParam.text) ++ [' '])
    (header.tail ++ trailing)
  rw [trim, start_eq, text, lead]
  simpa using end_eq

/-- The keyword and the list of the generic parameters are cut off. -/
theorem subject_eq (trailing : List Char) :
    ImplBlock.subject (header.text ++ trailing) =
      header.subject ++ trimEnd (header.tail ++ trailing) := by
  have trimmed := header.trim_text trailing
  generalize header.tail ++ trailing = rest at trimmed ⊢
  have bare := header.trim_space_subject rest
  have matched := (ImplBlock.keyword_stops (angleList (header.generics.map GenericParam.text) ++
    ' ' :: (header.subject ++ trimEnd rest)) []).match?_eq
  rw [ImplBlock.subject, trimmed, matched]
  cases header.generics with
  | nil =>
      have not_angle : (header.subject ++ trimEnd rest).head? ≠ some '<' := by
        obtain ⟨c, more, opens, other⟩ := header.subject_opens
        rw [opens]
        simpa using other
      simp only [List.map_nil, angleList, List.nil_append, bare, if_neg not_angle]
  | cons param params =>
      have balanced : ∀ entry ∈ (param :: params).map GenericParam.text, Bracket.Balanced entry :=
        List.forall_mem_map.mpr fun param _ => param.balanced
      rw [List.map_cons] at balanced ⊢
      have skipped := Bracket.skipAngles?_commaList balanced
        (' ' :: (header.subject ++ trimEnd rest))
      rw [angleList]
      generalize commaList (param.text :: params.map GenericParam.text) = list at skipped ⊢
      have list_bare : trim ('<' :: list ++ ['>'] ++ ' ' :: (header.subject ++ trimEnd rest)) =
          '<' :: (list ++ '>' :: ' ' :: (header.subject ++ trimEnd rest)) := by
        have end_eq := header.trimEnd_trimmed ('<' :: list ++ ['>', ' ']) rest
        rw [trim, List.cons_append, List.cons_append, trimStart_cons (by decide)]
        simpa using end_eq
      have dropped : ('<' :: (list ++ '>' :: ' ' :: (header.subject ++ trimEnd rest))).drop
          (list.length + 2) = ' ' :: (header.subject ++ trimEnd rest) := by
        rw [List.drop_succ_cons, List.drop_append]
        simp
      simp only [list_bare, List.head?_cons, skipped, dropped, bare, if_true]

end ImplHeader

namespace ImplBlock

theorem for_inside : ∀ c ∈ "for".toList, isWord c = true := forall_mem_of_all rfl

theorem implementor_beginsWith : implementor.BeginsWith "for".toList := by
  intro before text matched
  obtain ⟨s, after, rfl, reads⟩ := (isSome_matchAt?_iff before text).mp matched
  obtain ⟨_, _, rfl, ⟨rfl, edge⟩, _, _, rfl, rfl, _, _, rfl, ⟨_, blanks, rfl, ⟨c, rfl, blank⟩, -⟩,
    -⟩ := reads
  have broken (rest : List Char) : (c :: rest).head?.any isWord = false := isWord_of_isBlank blank
  have letter : isWord 'f' = true := by decide
  refine ⟨by simpa [Place.atWordEdge, letter] using edge, ?_⟩
  exact takeWhile_isWord_append for_inside (broken _)

/-- Behind the keyword, the rest of the text is recorded. -/
theorem implementor_matchAt? {before after : List Char} (outside : before.head?.any isWord = false)
    (spaced : Spaced after) (pad : List Char) :
    ∃ found, implementor.matchAt? ⟨before, "for ".toList ++ (after ++ pad)⟩ = some found ∧
      found.captured = after ++ pad := by
  obtain ⟨c, rest, rfl, solid⟩ := spaced.head_solid
  have solid_head : ∀ d ∈ (c :: (rest ++ pad)).head?, isBlank d = false := by
    rintro d ⟨⟩
    exact solid
  have first (before : List Char) : (Pattern.one fun c => !isBlank c).Stops
      ⟨⟨before, c :: (rest ++ pad)⟩, none⟩ ⟨⟨c :: before, rest ++ pad⟩, none⟩ :=
    stops_one (by rw [solid]; rfl) before _ none
  have others (before : List Char) : (Pattern.many fun _ => true).Stops
      ⟨⟨before, rest ++ pad⟩, none⟩ ⟨⟨(rest ++ pad).reverse ++ before, []⟩, none⟩ := by
    have onward : (Pattern.many fun _ => true).Stops ⟨⟨before, (rest ++ pad) ++ []⟩, none⟩ _ :=
      stops_many (fun _ _ => rfl) (by simp) before none
    rwa [List.append_nil] at onward
  have found : implementor.Stops ⟨⟨before, "for".toList ++ ' ' :: c :: (rest ++ pad)⟩, none⟩ _ :=
    (stops_edge (by rw [Place.atWordEdge, outside]; rfl)).all_cons
      ((stops_text before "for".toList (' ' :: c :: (rest ++ pad)) none).all_cons
        ((stops_gap solid_head _ none).all_cons
          (((first _).seq (others _)).capture.all_cons (stops_all_nil _))))
  refine ⟨_, found.matchAt?_eq, ?_⟩
  have captured := Match.captured_eq ⟨before, "for".toList ++ ' ' :: c :: (rest ++ pad)⟩
    ⟨(c :: (rest ++ pad)).reverse ++ ' ' :: ("for".toList.reverse ++ before), []⟩
    (' ' :: ("for".toList.reverse ++ before)) (c :: (rest ++ pad)) []
  simpa using captured

end ImplBlock

namespace ImplHeader

variable {header : ImplHeader} {pad : List Char}

/-- The conditions are cut off, but not the blank in front of them. -/
theorem exists_textBefore {behind : List Char} (no_where : "where".toList ∉ header.words)
    (tail : behind = [] ∨ ∃ more, behind = ' ' :: ("where".toList ++ more) ∧
      more.head?.any isWord = false) :
    ∃ pad, (pad = [] ∨ pad = [' ']) ∧
      (whole "where".toList).textBefore (header.subject ++ behind) = header.subject ++ pad := by
  have inside : ∀ c ∈ "where".toList, isWord c = true := forall_mem_of_all rfl
  have absent : "where".toList ∉ runs isBreak header.subject := by
    intro mem
    rcases header.runs_subject _ mem with word | keyword
    · exact no_where word
    · exact absurd keyword (by decide)
  rcases tail with rfl | ⟨more, rfl, outside⟩
  · refine ⟨[], .inl rfl, ?_⟩
    rw [List.append_nil]
    exact textBefore_eq (Bool.eq_false_iff.mpr fun occurs =>
      absent ((occursIn_whole inside (by decide) _).mp occurs))
  · refine ⟨[' '], .inr rfl, ?_⟩
    rw [List.append_cons]
    refine textBefore_whole inside (by decide) ?_ ?_ outside
    · rwa [runs_concat (by decide)]
    · rw [List.getLast?_concat]
      rintro c ⟨⟩
      decide

/-- Without a trait no implementor is found; behind a trait it is the type. -/
theorem implementor_search? (no_for : "for".toList ∉ header.words)
    (space : pad = [] ∨ pad = [' ']) :
    (header.subject = header.type.text ∧
        ImplBlock.implementor.search? (header.subject ++ pad) = none) ∨
      ∃ found, ImplBlock.implementor.search? (header.subject ++ pad) = some found ∧
        found.captured = header.type.text ++ pad := by
  rw [words, List.mem_append, not_or] at no_for
  rw [subject]
  cases trait_eq : header.trait with
  | none =>
      have absent : "for".toList ∉ runs isBreak (header.type.text ++ pad) := by
        rcases space with rfl | rfl
        · rw [List.append_nil, header.type.runs_text]
          exact no_for.2
        · rw [runs_concat (by decide), header.type.runs_text]
          exact no_for.2
      exact .inl ⟨rfl, ImplBlock.implementor_beginsWith.search?_eq_none ImplBlock.for_inside
        (by decide) absent⟩
  | some trait =>
      rw [trait_eq] at no_for
      have whole : trait.text ++ " for ".toList ++ header.type.text ++ pad =
          (trait.text ++ [' ']) ++ ("for ".toList ++ (header.type.text ++ pad)) := by simp
      have absent : "for".toList ∉ runs isBreak (trait.text ++ [' ']) := by
        rw [runs_concat (by decide), trait.runs_text]
        exact no_for.1
      have edge : ∀ c ∈ (trait.text ++ [' ']).getLast?, isWord c = false := by
        rw [List.getLast?_concat]
        rintro c ⟨⟩
        decide
      obtain ⟨found, here, captured⟩ := ImplBlock.implementor_matchAt?
        (outside_of_getLast? edge) header.type.spaced pad
      refine .inr ⟨found, ?_, captured⟩
      dsimp only
      rw [whole, ImplBlock.implementor_beginsWith.search?_append ImplBlock.for_inside (by decide)
        absent edge]
      exact searchFrom?_of_matchAt? here

/-- The mark of a reference and the arguments are cut off. -/
theorem path_eq (space : pad = [] ∨ pad = [' ']) :
    ((trim (header.type.text ++ pad)).dropWhile (· = '&')).takeWhile (· ≠ '<') =
      header.path.text := by
  have trimmed : trim (header.type.text ++ pad) = header.type.text := by
    rcases space with rfl | rfl
    · rw [List.append_nil, header.type.spaced.trim_eq]
    · exact header.type.spaced.trim_concat_blank (by decide)
  have unmarked : header.type.text.dropWhile (· = '&') =
      (TypeExpr.named header.path header.args).text := by
    have head_ne : header.path.first.head ≠ '&' :=
      ne_of_isIdentRest (isIdentRest_of_isIdentStart header.path.first.head_start) (by decide)
    have named_eq : (TypeExpr.named header.path header.args).text.dropWhile (· = '&') =
        (TypeExpr.named header.path header.args).text := by
      rw [TypeExpr.text_named, IdentPath.text, Ident.text]
      exact List.dropWhile_cons_of_neg (by simpa using head_ne)
    rw [type]
    split
    · rw [TypeExpr.text_ref, List.dropWhile_cons_of_pos (by decide), named_eq]
    · exact named_eq
  have plain : ∀ c ∈ header.path.text, decide (c ≠ '<') = true :=
    header.path.forall_mem_text
      (fun c inside => by simpa using ne_of_isIdentRest inside (by decide)) (by decide)
  rw [trimmed, unmarked, TypeExpr.text_named, List.takeWhile_append_of_pos plain]
  cases header.args with
  | nil => simp [angleList]
  | cons arg args => simp [angleList]

end ImplHeader

namespace ImplBlock

/-- The type of a block is the last segment of the path in its header. -/
theorem targetOf_text (header : ImplHeader) (trailing : List Char)
    (blank : ∀ c ∈ trailing, isBlank c = true) (no_for : "for".toList ∉ header.words)
    (no_where : "where".toList ∉ header.words) :
    targetOf (header.text ++ trailing) = header.path.last.text := by
  obtain ⟨pad, space, before_where⟩ :=
    ImplHeader.exists_textBefore no_where (header.trimEnd_tail blank)
  have target_eq : trim (Attribute.lastSegment (trim
      (((trim (header.type.text ++ pad)).dropWhile (· = '&')).takeWhile (· ≠ '<')))) =
      header.path.last.text := by
    rw [ImplHeader.path_eq space, header.path.spaced.trim_eq, header.path.lastSegment_text,
      header.path.last.spaced.trim_eq]
  rw [targetOf, header.subject_eq, before_where]
  rcases ImplHeader.implementor_search? no_for space with
    ⟨bare, searched⟩ | ⟨found, searched, captured⟩
  · rw [searched]
    dsimp only
    rw [bare, target_eq]
  · rw [searched]
    dsimp only
    rw [captured, target_eq]

/-- Bounds of the parameters, an arrow in front of `for`, a reference, and both keywords in the
conditions. -/
theorem targetOf_text_bounded :
    let name (c : Char) (start : isIdentStart c = true) : Ident :=
      ⟨c, [], start, List.forall_mem_nil _⟩
    let named (c : Char) (start : isIdentStart c = true) (args : List TypeExpr) : TypeExpr :=
      .named ⟨name c start, []⟩ args
    let header : ImplHeader := {
      generics := [⟨name 'K' rfl, [named 'V' rfl [named 'A' rfl []], named 'B' rfl []]⟩,
        ⟨name 'L' rfl, []⟩]
      trait := some (named 'T' rfl [.function [named 'A' rfl []] (named 'B' rfl [])])
      reference := true
      path := ⟨name 'm' rfl, [name 'Q' rfl]⟩
      args := [named 'V' rfl [named 'A' rfl []]]
      conditions := some "K: for where".toList }
    "for".toList ∉ header.words ∧ "where".toList ∉ header.words ∧
      targetOf "impl<K: V<A> + B, L> T<fn(A) -> B> for &m::Q<V<A>> where K: for where ".toList =
        "Q".toList := by
  intro name named header
  have no_for : "for".toList ∉ header.words := by decide +revert
  have no_where : "where".toList ∉ header.words := by decide +revert
  have blank : ∀ c ∈ [' '], isBlank c = true := List.forall_mem_singleton.mpr (by decide)
  exact ⟨no_for, no_where, targetOf_text header [' '] blank no_for no_where⟩

end ImplBlock
end SorobanLint
