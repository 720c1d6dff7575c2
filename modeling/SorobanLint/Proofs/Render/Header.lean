import SorobanLint.Contract.Struct
import SorobanLint.Contract.ImplBlock
import SorobanLint.Proofs.Matching
import SorobanLint.Proofs.Render.Type

/-!
# Canonical headers

The header of a rendered declaration is read up to its name, and the name is recorded.  An
identifier may begin with a keyword: what stands behind it tells the two apart
(`Ident.split_keyword`).
-/

namespace SorobanLint

open Text Pattern

variable {before after : List Char} {group : Option (Place × Place)}

theorem Match.captured_eq (start stop : Place) (before s after : List Char) :
    (Match.mk start stop (some (⟨before, s ++ after⟩, ⟨s.reverse ++ before, after⟩))).captured =
      s := by
  simp [Match.captured, Place.upTo, Place.offset]

/-- A text of identifier characters ends where another character follows. -/
theorem Text.split_keyword {name keyword behind rest : List Char} {c : Char}
    (whole : name ++ c :: rest = keyword ++ behind) (inside : ∀ d ∈ name, isIdentRest d = true)
    (outside : isIdentRest c = false) (word : ∀ d ∈ keyword, isIdentRest d = true) :
    (name = keyword ∧ behind = c :: rest) ∨
      ∃ d more, behind = d :: more ∧ isIdentRest d = true := by
  induction keyword generalizing name with
  | nil =>
      cases name with
      | nil => exact .inl ⟨rfl, whole.symm⟩
      | cons d name => exact .inr ⟨d, name ++ c :: rest, whole.symm, inside d List.mem_cons_self⟩
  | cons k keyword ih =>
      rw [List.forall_mem_cons] at word
      cases name with
      | nil =>
          obtain ⟨rfl, -⟩ := List.cons.inj whole
          simp [word.1] at outside
      | cons d name =>
          rw [List.forall_mem_cons] at inside
          rw [List.cons_append, List.cons_append] at whole
          obtain ⟨rfl, tail_eq⟩ := List.cons.inj whole
          rcases ih tail_eq inside.2 word.2 with ⟨rfl, behind_eq⟩ | more
          · exact .inl ⟨rfl, behind_eq⟩
          · exact .inr more

theorem stops_gap (solid : ∀ c ∈ after.head?, isBlank c = false) (before : List Char)
    (group : Option (Place × Place)) :
    gap.Stops ⟨⟨before, ' ' :: after⟩, group⟩ ⟨⟨' ' :: before, after⟩, group⟩ :=
  stops_atLeastOne (s := []) (by decide) (List.forall_mem_nil _) solid before group

theorem fails_gap (solid : ∀ c ∈ after.head?, isBlank c = false) (before : List Char)
    (group : Option (Place × Place)) : gap.Fails ⟨⟨before, after⟩, group⟩ :=
  (fails_one solid before group).seq _

/-! ## Visibility -/

namespace Visibility

/-- The mark as it is rendered. -/
def text : Visibility → List Char
  | pub => "pub ".toList
  | priv => []

theorem isTypeChar_of_mem (visibility : Visibility) :
    ∀ c ∈ visibility.text, isTypeChar c = true := by
  cases visibility <;> exact forall_mem_of_all rfl

/-- A text that begins with no mark, not even behind another one. -/
structure Unmarked (after : List Char) : Prop where
  head : ∀ c ∈ after.head?, isBlank c = false ∧ c ≠ '('
  behind_pub : ∀ rest, after = "pub".toList ++ rest → ∀ c ∈ rest.head?, isBlank c = false ∧ c ≠ '('

theorem unmarked_ident (name : Ident) {c : Char} (outside : isIdentRest c = false)
    (solid : isBlank c = false) (no_paren : c ≠ '(') (rest : List Char) :
    Unmarked (name.text ++ c :: rest) where
  head := by
    intro d mem
    obtain rfl := Option.mem_some.mp mem
    have inside := name.isIdentRest_of_mem name.head List.mem_cons_self
    exact ⟨isBlank_of_isIdentRest inside, ne_of_isIdentRest inside (by decide)⟩
  behind_pub := by
    intro behind whole d mem
    rcases split_keyword whole name.isIdentRest_of_mem outside (forall_mem_of_all rfl) with
      ⟨-, rfl⟩ | ⟨e, more, rfl, inside⟩
    · obtain rfl := Option.mem_some.mp mem
      exact ⟨solid, no_paren⟩
    · obtain rfl := Option.mem_some.mp mem
      exact ⟨isBlank_of_isIdentRest inside, ne_of_isIdentRest inside (by decide)⟩

theorem unmarked_of_ne {c : Char} (solid : isBlank c = false) (no_paren : c ≠ '(')
    (other : c ≠ 'p') (rest : List Char) : Unmarked (c :: rest) where
  head := by
    intro d mem
    obtain rfl := Option.mem_some.mp mem
    exact ⟨solid, no_paren⟩
  behind_pub := fun _ whole => absurd (List.cons.inj whole).1 other

/-- The restriction of a mark. -/
def restriction : Pattern := .all [.spaces, "(", .many (· ≠ ')'), ")"]

theorem mark_eq : mark = .all ["pub", .maybe restriction, .gap] := rfl

theorem fails_restriction {lead behind : List Char} (blank : ∀ c ∈ lead, isBlank c = true)
    (next : ∀ c ∈ behind.head?, isBlank c = false ∧ c ≠ '(') (before : List Char)
    (group : Option (Place × Place)) : restriction.Fails ⟨⟨before, lead ++ behind⟩, group⟩ := by
  refine fails_seq ?_
  intro middle mem
  obtain ⟨s, whole, s_blank⟩ := eq_of_mem_ends_many mem
  have other : ∀ c ∈ middle.place.after.head?, c ≠ '(' := by
    intro c head_eq
    rcases List.append_eq_append_iff.mp whole with ⟨t, rfl, behind_eq⟩ | ⟨t, rfl, rest_eq⟩
    · cases t with
      | nil => exact (next c (by rw [behind_eq]; exact head_eq)).2
      | cons d t =>
          have solid := (next d (by rw [behind_eq]; rfl)).1
          rw [s_blank d (List.mem_append_right _ List.mem_cons_self)] at solid
          contradiction
    · rw [rest_eq] at head_eq
      cases t with
      | nil => exact (next c head_eq).2
      | cons d t =>
          obtain rfl := Option.mem_some.mp head_eq
          have head_blank := blank d (List.mem_append_right _ List.mem_cons_self)
          rintro rfl
          contradiction
  exact (fails_text_cons other _ _ _).seq _

theorem mark_stops (unmarked : Unmarked after) (before : List Char)
    (group : Option (Place × Place)) :
    mark.Stops ⟨⟨before, pub.text ++ after⟩, group⟩
      ⟨⟨pub.text.reverse ++ before, after⟩, group⟩ := by
  have no_restriction : restriction.Fails ⟨⟨"bup".toList ++ before, [' '] ++ after⟩, group⟩ :=
    fails_restriction (forall_mem_of_all rfl) unmarked.head _ group
  have solid : ∀ c ∈ after.head?, isBlank c = false := fun c mem => (unmarked.head c mem).1
  rw [mark_eq]
  exact (stops_text before "pub".toList (' ' :: after) group).all_cons
    (no_restriction.maybe.all_cons ((stops_gap solid _ group).all_cons (stops_all_nil _)))

theorem mark_fails (unmarked : Unmarked after) (before : List Char)
    (group : Option (Place × Place)) : mark.Fails ⟨⟨before, after⟩, group⟩ := by
  rw [mark_eq]
  refine fails_seq ?_
  rintro ⟨⟨passed, behind⟩, other⟩ mem
  obtain ⟨after_eq, -⟩ := eq_of_mem_ends_text mem
  have next := unmarked.behind_pub _ after_eq
  have no_restriction := fails_restriction (List.forall_mem_nil _) next passed other
  have no_gap := fails_gap (fun c mem => (next c mem).1) passed other
  exact no_restriction.maybe_all (no_gap.all_cons _)

/-- The mark of a public item is passed, and where there is none nothing is. -/
theorem maybe_mark_stops (visibility : Visibility) (unmarked : Unmarked after)
    (before : List Char) (group : Option (Place × Place)) :
    (maybe mark).Stops ⟨⟨before, visibility.text ++ after⟩, group⟩
      ⟨⟨visibility.text.reverse ++ before, after⟩, group⟩ := by
  cases visibility with
  | pub => exact (mark_stops unmarked before group).maybe
  | priv => exact (mark_fails unmarked before group).maybe

theorem split_text (visibility : Visibility) (unmarked : Unmarked after) :
    split (visibility.text ++ after) = (visibility, after) := by
  cases visibility with
  | pub => rw [split, (mark_stops unmarked [] none).match?_eq]
  | priv =>
      have absent : mark.match? after = none := (mark_fails unmarked [] none).matchAt?_eq
      rw [text, List.nil_append, split, absent]

end Visibility

/-! ## Structs -/

theorem Ident.stops_name (name : Ident) (outside : ∀ c ∈ after.head?, isWord c = false)
    (before : List Char) (group : Option (Place × Place)) :
    (Pattern.seq (.one isIdentStart) (.many isWord)).Stops ⟨⟨before, name.text ++ after⟩, group⟩
      ⟨⟨name.text.reverse ++ before, after⟩, group⟩ := by
  have word : ∀ c ∈ name.tail, isWord c = true :=
    fun c mem => isWord_of_isIdentRest (name.tail_rest c mem)
  rw [Ident.text, List.reverse_cons, List.append_assoc]
  exact (stops_one name.head_start before _ group).seq (stops_many word outside _ group)

/-- The header of a struct is read up to its name. -/
theorem Struct.header_match? (name : Ident) (outside : ∀ c ∈ after.head?, isWord c = false) :
    ∃ found, Struct.header.match? ("pub struct ".toList ++ name.text ++ after) = some found ∧
      found.captured = name.text ∧
      ("pub struct ".toList ++ name.text ++ after).drop found.stop.offset = after := by
  have solid : ∀ c ∈ (name.text ++ after).head?, isBlank c = false := by
    intro c mem
    obtain rfl := Option.mem_some.mp mem
    exact isBlank_of_isIdentRest (name.isIdentRest_of_mem name.head List.mem_cons_self)
  have unmarked : Visibility.Unmarked ("struct".toList ++ ' ' :: (name.text ++ after)) :=
    Visibility.unmarked_of_ne (by decide) (by decide) (by decide) _
  have found : Struct.header.Stops
      ⟨⟨[], Visibility.pub.text ++ ("struct".toList ++ ' ' :: (name.text ++ after))⟩, none⟩ _ :=
    (Visibility.maybe_mark_stops .pub unmarked [] none).all_cons
      ((stops_text _ "struct".toList _ none).all_cons
        ((stops_gap solid _ none).all_cons
          ((name.stops_name outside _ none).capture.all_cons (stops_all_nil _))))
  refine ⟨_, found.match?_eq, ?_, ?_⟩
  · exact Match.captured_eq _ _ _ name.text after
  · refine List.drop_left' ?_
    simp [Place.offset, Visibility.text]

/-! ## Functions -/

namespace Function

/-- The words that may stand in front of `fn`. -/
def qualifiers : Pattern :=
  let abi := Pattern.maybe (.all [.gap, "\"", .many (· ≠ '"'), "\""])
  .star (.seq (.alt (.oneOf ["const", "async", "unsafe"]) (.seq "extern" abi)) .gap)

/-- One of the words that may stand in front of `fn`, with the blanks behind it. -/
def qualifier : Pattern :=
  let abi := Pattern.maybe (.all [.gap, "\"", .many (· ≠ '"'), "\""])
  .seq (.alt (.oneOf ["const", "async", "unsafe"]) (.seq "extern" abi)) .gap

/-- The name behind `fn`. -/
def nameMark : Pattern := .all [.maybe "r#", .one isIdentStart, .many isWord]

theorem qualifier_fails (rest before : List Char) (group : Option (Place × Place)) :
    qualifier.Fails ⟨⟨before, 'f' :: rest⟩, group⟩ := by
  have other {c : Char} (ne : 'f' ≠ c) (cs : List Char) :
      (Pattern.text (c :: cs)).Fails ⟨⟨before, 'f' :: rest⟩, group⟩ :=
    fails_text_cons (fun d mem => by rwa [← Option.mem_some.mp mem]) before cs group
  have absent := (other (c := 'c') (by decide) "onst".toList).alt
    ((other (c := 'a') (by decide) "sync".toList).alt
      (other (c := 'u') (by decide) "nsafe".toList))
  have no_extern := (other (c := 'e') (by decide) "xtern".toList).seq
    (Pattern.maybe (.all [.gap, "\"", .many (· ≠ '"'), "\""]))
  exact (absent.alt no_extern).seq gap

theorem qualifiers_stops (rest before : List Char) (group : Option (Place × Place)) :
    qualifiers.Stops ⟨⟨before, 'f' :: rest⟩, group⟩ ⟨⟨before, 'f' :: rest⟩, group⟩ :=
  (qualifier_fails rest before group).star

/-- The name of a function is recorded up to its parameter list. -/
theorem nameMark_stops (name : Ident) (rest before : List Char)
    (group : Option (Place × Place)) :
    nameMark.Stops ⟨⟨before, name.text ++ '(' :: rest⟩, group⟩
      ⟨⟨name.text.reverse ++ before, '(' :: rest⟩, group⟩ := by
  have no_mark : (Pattern.text ['r', '#']).Fails ⟨⟨before, name.text ++ '(' :: rest⟩, group⟩ := by
    refine List.eq_nil_iff_forall_not_mem.mpr ?_
    intro stop mem
    obtain ⟨after_eq, -⟩ := eq_of_mem_ends_text mem
    obtain ⟨-, tail_eq⟩ := List.cons.inj after_eq
    cases tail_shape : name.tail with
    | nil =>
        rw [tail_shape] at tail_eq
        exact absurd (List.cons.inj tail_eq).1 (by decide)
    | cons d tail =>
        have inside := name.tail_rest d (by rw [tail_shape]; exact List.mem_cons_self)
        rw [tail_shape] at tail_eq
        exact ne_of_isIdentRest inside (by decide) (List.cons.inj tail_eq).1
  have word : ∀ c ∈ name.tail, isWord c = true :=
    fun c mem => isWord_of_isIdentRest (name.tail_rest c mem)
  have outside : ∀ c ∈ ('(' :: rest).head?, isWord c = false := by
    intro c mem
    obtain rfl := Option.mem_some.mp mem
    decide
  rw [Ident.text, List.reverse_cons, List.append_assoc]
  exact no_mark.maybe.all_cons ((stops_one name.head_start before _ group).all_cons
    ((stops_many word outside _ group).all_cons (stops_all_nil _)))

/-- The header of a function is read up to its parameter list. -/
theorem header_match? (visibility : Visibility) (name : Ident) (rest : List Char) :
    ∃ found, header.match? (visibility.text ++ ("fn ".toList ++ (name.text ++ '(' :: rest))) =
        some found ∧
      found.captured = name.text ∧
      found.stop.offset = (visibility.text ++ ("fn ".toList ++ name.text)).length := by
  have solid : ∀ c ∈ (name.text ++ '(' :: rest).head?, isBlank c = false := by
    intro c mem
    obtain rfl := Option.mem_some.mp mem
    exact isBlank_of_isIdentRest (name.isIdentRest_of_mem name.head List.mem_cons_self)
  have unmarked : Visibility.Unmarked ("fn".toList ++ ' ' :: (name.text ++ '(' :: rest)) :=
    Visibility.unmarked_of_ne (by decide) (by decide) (by decide) _
  have found : header.Stops
      ⟨⟨[], visibility.text ++ ("fn".toList ++ ' ' :: (name.text ++ '(' :: rest))⟩, none⟩ _ :=
    (Visibility.maybe_mark_stops visibility unmarked [] none).all_cons
      ((qualifiers_stops _ _ none).all_cons
        ((stops_text _ "fn".toList _ none).all_cons
          ((stops_gap solid _ none).all_cons
            ((nameMark_stops name rest _ none).capture.all_cons (stops_all_nil _)))))
  refine ⟨_, found.match?_eq, ?_, ?_⟩
  · exact Match.captured_eq _ _ _ name.text ('(' :: rest)
  · simp [Place.offset]
    omega

end Function

/-! ## Blocks -/

namespace ImplBlock

/-- The mark of an unsafe block. -/
def unsafeMark : Pattern := .seq "unsafe" .gap

theorem unsafeMark_fails (rest before : List Char) :
    unsafeMark.Fails ⟨⟨before, 'i' :: rest⟩, none⟩ := by
  have other : ∀ d ∈ ('i' :: rest).head?, d ≠ 'u' := by
    intro d mem
    obtain rfl := Option.mem_some.mp mem
    decide
  exact (fails_text_cons other before "nsafe".toList none).seq gap

theorem keyword_stops (rest before : List Char) :
    keyword.Stops ⟨⟨before, "impl".toList ++ rest⟩, none⟩
      ⟨⟨"impl".toList.reverse ++ before, rest⟩, none⟩ :=
  (unsafeMark_fails _ before).maybe.all_cons
    ((stops_text before "impl".toList rest none).all_cons (stops_all_nil _))

theorem header_isHeadOf (rest : List Char) : header.isHeadOf ("impl ".toList ++ rest) = true := by
  have found : header.Stops ⟨⟨[], "impl".toList ++ ' ' :: rest⟩, none⟩ _ :=
    (unsafeMark_fails _ []).maybe.all_cons
      ((stops_text [] "impl".toList (' ' :: rest) none).all_cons
        ((stops_edge rfl).all_cons (stops_all_nil _)))
  have matched : header.match? ("impl ".toList ++ rest) = some _ := found.match?_eq
  rw [isHeadOf, matched]
  rfl

/-- No implementor is named in a text without blanks. -/
theorem implementor_search? {text : List Char} (solid : ∀ c ∈ text, isBlank c = false) :
    implementor.search? text = none := by
  refine searchFrom?_eq_none ?_
  intro s t text_eq
  have absent : implementor.Fails ⟨⟨s.reverse ++ [], t⟩, none⟩ := by
    refine fails_seq ?_
    intro first mem
    obtain ⟨rfl, -⟩ := eq_of_mem_ends_edge mem
    refine fails_seq ?_
    rintro ⟨⟨passed, behind⟩, group⟩ mem
    obtain ⟨after_eq, -⟩ := eq_of_mem_ends_text mem
    have text_split : text = s ++ ("for".toList ++ behind) := by rw [text_eq, ← after_eq]
    have behind_solid : ∀ c ∈ behind.head?, isBlank c = false := by
      intro c head_eq
      have inside : c ∈ "for".toList ++ behind :=
        List.mem_append_right _ (List.mem_of_mem_head? head_eq)
      exact solid c (by rw [text_split]; exact List.mem_append_right s inside)
    exact (fails_gap behind_solid passed group).all_cons _
  exact absent.matchAt?_eq

theorem segments_of_forall {s : List Char} (plain : ∀ c ∈ s, c ≠ ':') :
    Attribute.segments s = [s] := by
  fun_induction Attribute.segments s with
  | case1 => rfl
  | case2 => rfl
  | case3 c d rest colons =>
      simp only [Bool.and_eq_true, decide_eq_true_eq] at colons
      exact absurd colons.1 (plain c List.mem_cons_self)
  | case4 c d rest _ ih =>
      rw [ih (List.forall_mem_cons.mp plain).2]
      rfl

theorem subject_eq (name : Ident) :
    subject ("impl ".toList ++ name.text ++ [' ']) = name.text := by
  have spaced : Spaced ("impl".toList ++ ' ' :: name.text) :=
    Spaced.append_space (.of_word rfl) name.spaced
  have trimmed : trim ("impl ".toList ++ name.text ++ [' ']) = "impl".toList ++ ' ' :: name.text :=
    spaced.trim_concat_blank (by decide)
  have matched := (keyword_stops (' ' :: name.text) []).match?_eq
  have behind : trim (' ' :: name.text) = name.text := by
    rw [trim_cons_blank (by decide), name.spaced.trim_eq]
  have not_angle : name.text.head? ≠ some '<' := by
    intro head_eq
    obtain same := Option.some.inj head_eq
    exact ne_of_isIdentRest (name.isIdentRest_of_mem _ List.mem_cons_self) (by decide) same
  rw [subject, trimmed, matched]
  simp only [behind, if_neg not_angle]

/-- The implemented type of a header without trait and generic parameters. -/
theorem targetOf_eq (name : Ident) (other : name.text ≠ "where".toList) :
    targetOf ("impl ".toList ++ name.text ++ [' ']) = name.text := by
  have ne {d : Char} (outside : isIdentRest d = false) : ∀ c ∈ name.text, c ≠ d :=
    fun c mem => ne_of_isIdentRest (name.isIdentRest_of_mem c mem) outside
  have no_where : (whole "where".toList).occursIn name.text = false := by
    rw [Bool.eq_false_iff, Ne, occursIn_whole (forall_mem_of_all rfl) (by decide), name.runs_text,
      List.mem_singleton]
    exact other.symm
  have no_trait : implementor.search? name.text = none :=
    implementor_search? fun c mem => isBlank_of_isIdentRest (name.isIdentRest_of_mem c mem)
  have no_reference : name.text.dropWhile (· = '&') = name.text := by
    rw [Ident.text, List.dropWhile_cons_of_neg]
    simpa using ne (d := '&') (by decide) _ List.mem_cons_self
  have no_args : name.text.takeWhile (· ≠ '<') = name.text :=
    List.takeWhile_eq_self_iff.mpr fun c mem => by simpa using ne (d := '<') (by decide) c mem
  have single : Attribute.lastSegment name.text = name.text := by
    rw [Attribute.lastSegment, segments_of_forall (ne (by decide))]
    rfl
  simp only [targetOf, subject_eq, textBefore_eq no_where, no_trait, name.spaced.trim_eq,
    no_reference, no_args, single]

end ImplBlock

end SorobanLint
