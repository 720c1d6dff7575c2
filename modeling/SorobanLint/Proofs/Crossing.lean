import SorobanLint.Bracket.Group
import SorobanLint.Bracket.Split
import SorobanLint.Proofs.Words

/-!
# Walking across a text

A walk crosses a text if every visit on the way is calm.  Searches that no calm visit stops, and
splits that no calm visit cuts, pass over such a text (`Crosses.stopFrom?_eq`,
`Crosses.slicesFrom_eq`).  A balanced text is crossed from any stack and leaves it as it is; commas
and semicolons stand deeper in it.
-/

namespace SorobanLint

open Text

namespace Bracket

/-- A walk that starts behind `previous` with the first stack reads the first text in front of the
second, with calm visits only, and has the second stack and the last character behind it. -/
inductive Crosses (calm : Visit → Prop) :
    List Bracket → Option Char → List Char → List Char → List Bracket → Option Char → Prop where
  | nil {stack : List Bracket} {previous : Option Char} {rest : List Char} :
      Crosses calm stack previous [] rest stack previous
  | cons {stack after : List Bracket} {previous last : Option Char} {c : Char}
      {text rest : List Char} (visit : calm (Visit.of stack previous c (text ++ rest).head?))
      (onward : Crosses calm (step stack previous c (text ++ rest).head?) (some c) text rest after
        last) :
      Crosses calm stack previous (c :: text) rest after last

namespace Crosses

variable {calm mild : Visit → Prop} {stack middle after : List Bracket}
  {previous between last : Option Char} {s t text rest : List Char}

theorem append (front : Crosses calm stack previous s (t ++ rest) middle between)
    (back : Crosses calm middle between t rest after last) :
    Crosses calm stack previous (s ++ t) rest after last := by
  generalize whole : t ++ rest = later at front
  induction front with
  | nil => exact back
  | cons visit _ ih =>
      subst whole
      rw [← List.append_assoc] at visit ih
      exact .cons visit (ih back rfl)

theorem mono (crosses : Crosses calm stack previous text rest after last)
    (weaker : ∀ visit, calm visit → mild visit) :
    Crosses mild stack previous text rest after last := by
  induction crosses with
  | nil => exact .nil
  | cons visit _ ih => exact .cons (weaker _ visit) ih

theorem last_eq (crosses : Crosses calm stack previous text rest after last) :
    last = text.getLast?.or previous := by
  induction crosses with
  | nil => rfl
  | cons _ _ ih => rw [ih, List.getLast?_cons, Option.some_or, Option.or_some]

/-- A search passes over a text that is crossed without a hit. -/
theorem stopFrom?_eq {hit : Visit → Bool}
    (crosses : Crosses calm stack previous text rest after last)
    (misses : ∀ visit, calm visit → hit visit = false) :
    stopFrom? hit stack previous (text ++ rest) =
      (stopFrom? hit after last rest).map fun stop =>
        { stop with before := text ++ stop.before } := by
  induction crosses with
  | nil => simp
  | cons visit _ ih =>
      rw [List.cons_append, stopFrom?, misses _ visit, if_neg Bool.false_ne_true]
      simp only [Visit.of]
      rw [ih, Option.map_map]
      rfl

/-- A split puts a text that is crossed without a cut in front of the first slice behind it. -/
theorem slicesFrom_eq (crosses : Crosses calm stack previous text rest after last)
    (isDelimiter : Char → Bool)
    (misses : ∀ visit, calm visit → (isDelimiter visit.char && visit.before.isEmpty) = false) :
    slicesFrom isDelimiter stack previous (text ++ rest) =
      text.foldr consFirst (slicesFrom isDelimiter after last rest) := by
  induction crosses with
  | nil => rfl
  | cons visit _ ih =>
      have uncut := misses _ visit
      simp only [Visit.of] at uncut
      rw [List.cons_append, slicesFrom]
      simp only [uncut, Bool.false_eq_true, if_false]
      rw [ih, List.foldr_cons]

end Crosses

theorem foldr_consFirst (text piece : List Char) (rest : List (List Char)) :
    text.foldr consFirst (piece :: rest) = (text ++ piece) :: rest := by
  induction text with
  | nil => rfl
  | cons c text ih =>
      rw [List.foldr_cons, ih]
      rfl

/-! ## Visits above a stack -/

/-- Whether the character separates the entries of a list or the parts of a declaration. -/
def isSeparator (c : Char) : Bool := c = ',' || c = ';'

/-- Whether the character opens and closes nothing. -/
def isQuiet (c : Char) : Bool := !"<>()[]\x7b\x7d".toList.contains c

end Bracket

/-- A visit with the given stack below: no closer is wrong, the stack remains, and no brace is
opened. -/
structure Visit.Within (base : List Bracket) (visit : Visit) : Prop where
  fits : visit.isWrongCloser = false
  before_above : base <:+ visit.before
  after_above : base <:+ visit.after
  opens_no_brace : visit.char ≠ '{'

/-- A visit with the given stack below, and deeper if it is that of a separator. -/
structure Visit.Above (base : List Bracket) (visit : Visit) : Prop extends visit.Within base where
  separator_deeper : Bracket.isSeparator visit.char = true → visit.before ≠ base

namespace Bracket

theorem above_of_within_cons {kind : Bracket} {base : List Bracket} {visit : Visit}
    (within : visit.Within (kind :: base)) : visit.Above base where
  fits := within.fits
  before_above := (List.suffix_cons kind base).trans within.before_above
  after_above := (List.suffix_cons kind base).trans within.after_above
  opens_no_brace := within.opens_no_brace
  separator_deeper := by
    intro _ same
    have short := within.before_above.length_le
    rw [same, List.length_cons] at short
    omega

/-- No visit above the empty stack cuts at a comma. -/
theorem uncut_of_above (visit : Visit) (above : visit.Above []) :
    (decide (visit.char = ',') && visit.before.isEmpty) = false := by
  rw [Bool.and_eq_false_iff, decide_eq_false_iff_not, List.isEmpty_eq_false_iff]
  by_cases comma : visit.char = ','
  · exact .inr (above.separator_deeper (by rw [comma]; rfl))
  · exact .inl comma

theorem step_quiet {c : Char} (quiet : isQuiet c = true) (stack : List Bracket)
    (previous next : Option Char) : step stack previous c next = stack := by
  simp only [isQuiet, Bool.not_eq_true', List.contains_eq_mem, decide_eq_false_iff_not] at quiet
  simp only [String.reduceToList, List.mem_cons, List.not_mem_nil, or_false, not_or] at quiet
  simp [step, opened?, closed?, quiet]

theorem within_of_quiet {c : Char} (quiet : isQuiet c = true) (stack : List Bracket)
    (previous next : Option Char) : (Visit.of stack previous c next).Within stack where
  fits := by
    simp only [isQuiet, Bool.not_eq_true', List.contains_eq_mem, decide_eq_false_iff_not] at quiet
    simp only [String.reduceToList, List.mem_cons, List.not_mem_nil, or_false, not_or] at quiet
    simp [Visit.isWrongCloser, Visit.of, closed?, quiet]
  before_above := List.suffix_refl stack
  after_above := by simp only [Visit.of, step_quiet quiet, List.suffix_refl]
  opens_no_brace := by
    rintro rfl
    simp [isQuiet] at quiet

theorem above_of_quiet {c : Char} (quiet : isQuiet c = true) (joins : isSeparator c = false)
    (stack : List Bracket) (previous next : Option Char) :
    (Visit.of stack previous c next).Above stack where
  toWithin := within_of_quiet quiet stack previous next
  separator_deeper := fun separator => absurd (joins.symm.trans separator) Bool.false_ne_true

/-- A text without brackets is crossed. -/
theorem crosses_quiet {calm : Visit → Prop} (text : List Char)
    (quiet : ∀ c ∈ text, isQuiet c = true) {stack : List Bracket}
    (visits : ∀ c ∈ text, ∀ previous next, calm (Visit.of stack previous c next))
    (previous : Option Char) (rest : List Char) :
    Crosses calm stack previous text rest stack (text.getLast?.or previous) := by
  induction text generalizing previous with
  | nil => exact .nil
  | cons c text ih =>
      rw [List.forall_mem_cons] at quiet visits
      have onward := ih quiet.2 visits.2 (some c)
      have last_eq : (c :: text).getLast?.or previous = text.getLast?.or (some c) := by
        rw [List.getLast?_cons, Option.or_some, Option.some_or]
      rw [last_eq]
      refine .cons (visits.1 previous _) ?_
      rwa [step_quiet quiet.1]

theorem eq_of_opened? {c : Char} {kind : Bracket} (opens : opened? c = some kind) :
    (c = '(' ∧ kind = paren) ∨ (c = '[' ∧ kind = square) ∨ (c = '{' ∧ kind = brace) := by
  unfold opened? at opens
  split at opens
  · exact .inl ⟨‹_›, (Option.some.inj opens).symm⟩
  · split at opens
    · exact .inr (.inl ⟨‹_›, (Option.some.inj opens).symm⟩)
    · split at opens
      · exact .inr (.inr ⟨‹_›, (Option.some.inj opens).symm⟩)
      · cases opens

theorem eq_of_closed? {c : Char} {kind : Bracket} (closes : closed? c = some kind) :
    (c = ')' ∧ kind = paren) ∨ (c = ']' ∧ kind = square) ∨ (c = '}' ∧ kind = brace) := by
  unfold closed? at closes
  split at closes
  · exact .inl ⟨‹_›, (Option.some.inj closes).symm⟩
  · split at closes
    · exact .inr (.inl ⟨‹_›, (Option.some.inj closes).symm⟩)
    · split at closes
      · exact .inr (.inr ⟨‹_›, (Option.some.inj closes).symm⟩)
      · cases closes

/-- An opener is met above the stack in front of it, on which it puts its kind. -/
theorem visit_opener {c : Char} {kind : Bracket} (opens : opened? c = some kind)
    (no_brace : c ≠ '{') (base : List Bracket) (previous next : Option Char) :
    (Visit.of base previous c next).Above base ∧ step base previous c next = kind :: base := by
  rcases eq_of_opened? opens with ⟨rfl, rfl⟩ | ⟨rfl, rfl⟩ | ⟨rfl, rfl⟩
  · exact ⟨⟨⟨rfl, List.suffix_refl base, List.suffix_cons paren base, no_brace⟩,
      fun separator => absurd separator Bool.false_ne_true⟩, rfl⟩
  · exact ⟨⟨⟨rfl, List.suffix_refl base, List.suffix_cons square base, no_brace⟩,
      fun separator => absurd separator Bool.false_ne_true⟩, rfl⟩
  · contradiction

/-- A closer is met above the stack below the bracket that it closes. -/
theorem visit_closer {c : Char} {kind : Bracket} (closes : closed? c = some kind)
    (base : List Bracket) (previous next : Option Char) :
    (Visit.of (kind :: base) previous c next).Above base ∧
      step (kind :: base) previous c next = base := by
  rcases eq_of_closed? closes with ⟨rfl, rfl⟩ | ⟨rfl, rfl⟩ | ⟨rfl, rfl⟩
  · exact ⟨⟨⟨rfl, List.suffix_cons paren base, List.suffix_refl base, by simp [Visit.of]⟩,
      fun separator => absurd separator Bool.false_ne_true⟩, rfl⟩
  · exact ⟨⟨⟨rfl, List.suffix_cons square base, List.suffix_refl base, by simp [Visit.of]⟩,
      fun separator => absurd separator Bool.false_ne_true⟩, rfl⟩
  · exact ⟨⟨⟨rfl, List.suffix_cons brace base, List.suffix_refl base, by simp [Visit.of]⟩,
      fun separator => absurd separator Bool.false_ne_true⟩, rfl⟩

/-- A crossing between two brackets crosses the brackets as well. -/
theorem Crosses.enclosed {base : List Bracket} {kind : Bracket} {previous last : Option Char}
    {c d : Char} {inner rest : List Char}
    (inside : Crosses (Visit.Within (kind :: base)) (kind :: base) (some c) inner (d :: rest)
      (kind :: base) last)
    (opener : (Visit.of base previous c (inner ++ [d] ++ rest).head?).Above base ∧
      step base previous c (inner ++ [d] ++ rest).head? = kind :: base)
    (closer : (Visit.of (kind :: base) last d rest.head?).Above base ∧
      step (kind :: base) last d rest.head? = base) :
    Crosses (Visit.Above base) base previous (c :: inner ++ [d]) rest base (some d) := by
  have final : Crosses (Visit.Above base) (kind :: base) last [d] rest base (some d) := by
    refine .cons closer.1 ?_
    rw [List.nil_append, closer.2]
    exact .nil
  rw [List.cons_append]
  refine .cons opener.1 ?_
  rw [opener.2]
  exact (inside.mono fun _ => above_of_within_cons).append final

/-! ## Balanced texts -/

/-- A text that is crossed from any stack, which it leaves as it is.  Its last character heads no
arrow, and its first one does not keep a `<` in front of it from opening a list. -/
structure Balanced (text : List Char) : Prop where
  opens : ∃ c rest, text = c :: rest ∧ c ≠ '=' ∧ c ≠ '<'
  crosses : ∀ base previous rest, ∃ c, closesAngle (some c) = true ∧
    Crosses (Visit.Above base) base previous text rest base (some c)

namespace Balanced

variable {s t text inner : List Char} {entries : List (List Char)}

theorem append (front : Balanced s) (back : Balanced t) : Balanced (s ++ t) where
  opens := by
    obtain ⟨c, rest, rfl, other⟩ := front.opens
    exact ⟨c, rest ++ t, rfl, other⟩
  crosses := by
    intro base previous rest
    obtain ⟨b, -, first⟩ := front.crosses base previous (t ++ rest)
    obtain ⟨c, closes, second⟩ := back.crosses base (some b) rest
    exact ⟨c, closes, first.append second⟩

theorem crosses_within (balanced : Balanced text) (base : List Bracket)
    (previous : Option Char) (rest : List Char) : ∃ c, closesAngle (some c) = true ∧
      Crosses (Visit.Within base) base previous text rest base (some c) := by
  obtain ⟨c, closes, crosses⟩ := balanced.crosses base previous rest
  exact ⟨c, closes, crosses.mono fun _ above => above.toWithin⟩

theorem of_plain (plain : ∀ c ∈ text, isQuiet c = true ∧ isSeparator c = false ∧
    closesAngle (some c) = true) (nonempty : text ≠ []) : Balanced text where
  opens := by
    obtain ⟨c, rest, rfl⟩ := List.exists_cons_of_ne_nil nonempty
    obtain ⟨quiet, -, closes⟩ := plain c List.mem_cons_self
    refine ⟨c, rest, rfl, ?_, ?_⟩
    · rintro rfl
      contradiction
    · rintro rfl
      contradiction
  crosses := by
    intro base previous rest
    have crosses := crosses_quiet text (fun c mem => (plain c mem).1)
      (fun c mem => above_of_quiet (plain c mem).1 (plain c mem).2.1 base) previous rest
    rw [List.getLast?_eq_some_getLast nonempty, Option.some_or] at crosses
    exact ⟨_, (plain _ (List.getLast_mem nonempty)).2.2, crosses⟩

theorem arrow : Balanced " -> ".toList where
  opens := ⟨' ', "-> ".toList, rfl, by decide, by decide⟩
  crosses := by
    intro base previous rest
    have plain : ∀ c ∈ [' ', '-'], isQuiet c = true ∧ isSeparator c = false :=
      forall_mem_of_all rfl
    have visits : ∀ c ∈ [' ', '-'], ∀ previous next,
        (Visit.of base previous c next).Above base :=
      fun c mem => above_of_quiet (plain c mem).1 (plain c mem).2 base
    have front := crosses_quiet [' ', '-'] (fun c mem => (plain c mem).1) visits previous
      ('>' :: ' ' :: rest)
    have head : (Visit.of base (some '-') '>' (some ' ')).Above base := {
      fits := rfl
      before_above := List.suffix_refl base
      after_above := List.suffix_refl base
      opens_no_brace := by simp [Visit.of]
      separator_deeper := by simp [Visit.of, isSeparator] }
    have back := crosses_quiet [' '] (forall_mem_of_all rfl)
      (List.forall_mem_singleton.mpr (visits ' ' List.mem_cons_self)) (some '>') rest
    exact ⟨' ', by decide, front.append (.cons head back)⟩

/-- A text in brackets is balanced if it is crossed above its opening bracket. -/
theorem wrap {opener closer : Char} {kind : Bracket} (opens : opened? opener = some kind)
    (closes : closed? closer = some kind) (no_brace : opener ≠ '{')
    (inside : ∀ base previous rest, ∃ last,
      Crosses (Visit.Within (kind :: base)) (kind :: base) previous inner rest (kind :: base)
        last) :
    Balanced (opener :: inner ++ [closer]) where
  opens := by
    refine ⟨opener, inner ++ [closer], rfl, ?_, ?_⟩
    · rintro rfl
      cases opens
    · rintro rfl
      cases opens
  crosses := by
    intro base previous rest
    obtain ⟨last, crosses⟩ := inside base (some opener) (closer :: rest)
    refine ⟨closer, ?_, crosses.enclosed (visit_opener opens no_brace base previous _)
      (visit_closer closes base last _)⟩
    rcases eq_of_closed? closes with ⟨rfl, -⟩ | ⟨rfl, -⟩ | ⟨rfl, -⟩ <;> rfl

/-- Entries in angle brackets behind a word are balanced with the word. -/
theorem angles (front : Balanced s) (word : ∀ c ∈ s.getLast?, isWord c = true)
    (inner_opens : ∃ c behind, inner = c :: behind ∧ c ≠ '=' ∧ c ≠ '<')
    (inside : ∀ base previous rest, ∃ c, closesAngle (some c) = true ∧
      Crosses (Visit.Within (angle :: base)) (angle :: base) previous inner rest (angle :: base)
        (some c)) :
    Balanced (s ++ ('<' :: inner ++ ['>'])) where
  opens := by
    obtain ⟨c, rest, rfl, other⟩ := front.opens
    exact ⟨c, _, rfl, other⟩
  crosses := by
    intro base previous rest
    obtain ⟨b, -, first⟩ := front.crosses base previous ('<' :: inner ++ ['>'] ++ rest)
    obtain ⟨c, closes, second⟩ := inside base (some '<') ('>' :: rest)
    obtain ⟨d, behind, inner_eq, not_equals, not_angle⟩ := inner_opens
    have b_last : b ∈ s.getLast? := by
      obtain ⟨_, _, rfl, -⟩ := front.opens
      have last_eq := first.last_eq
      rw [List.getLast?_cons, Option.some_or] at last_eq
      rw [List.getLast?_cons, ← last_eq, Option.mem_some]
    have next_eq : (inner ++ ['>'] ++ rest).head? = some d := by
      rw [inner_eq]
      rfl
    have opened : step base (some b) '<' (some d) = angle :: base := by
      simp [step, opensAngle, word b b_last, not_equals, not_angle]
    have closed : step (angle :: base) (some c) '>' rest.head? = base := by
      simp [step, closes, dropAngle]
    have opener : (Visit.of base (some b) '<' (some d)).Above base := {
      fits := rfl
      before_above := List.suffix_refl base
      after_above := by simp only [Visit.of, opened, List.suffix_cons]
      opens_no_brace := by simp [Visit.of]
      separator_deeper := by simp [Visit.of, isSeparator] }
    have closer : (Visit.of (angle :: base) (some c) '>' rest.head?).Above base := {
      fits := rfl
      before_above := List.suffix_cons angle base
      after_above := by simp only [Visit.of, closed, List.suffix_refl]
      opens_no_brace := by simp [Visit.of]
      separator_deeper := by simp [Visit.of, isSeparator] }
    refine ⟨'>', by decide, first.append (second.enclosed ?_ ⟨closer, closed⟩)⟩
    rw [next_eq]
    exact ⟨opener, opened⟩

/-- A comma behind a balanced text cuts it off. -/
theorem slicesFrom_comma (balanced : Balanced text) (previous : Option Char) (rest : List Char) :
    slicesFrom (· = ',') [] previous (text ++ ',' :: rest) =
      text :: slicesFrom (· = ',') [] (some ',') rest := by
  obtain ⟨c, -, crosses⟩ := balanced.crosses [] previous (',' :: rest)
  rw [crosses.slicesFrom_eq (· = ',') uncut_of_above, slicesFrom, step_quiet (by decide)]
  simp only [decide_true, List.isEmpty_nil, Bool.and_self, if_true, foldr_consFirst,
    List.append_nil]

theorem slicesFrom_end (balanced : Balanced text) (previous : Option Char) :
    slicesFrom (· = ',') [] previous text = [text] := by
  obtain ⟨c, -, crosses⟩ := balanced.crosses [] previous []
  have whole := crosses.slicesFrom_eq (· = ',') uncut_of_above
  rwa [List.append_nil, slicesFrom, foldr_consFirst, List.append_nil] at whole

end Balanced

end Bracket
end SorobanLint
