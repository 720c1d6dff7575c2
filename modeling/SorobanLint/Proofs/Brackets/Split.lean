import SorobanLint.Contract.Field
import SorobanLint.Proofs.Brackets.Real
import SorobanLint.Proofs.Lines

/-!
# Cutting a text outside its brackets

The places where a text is cut can be given as offsets: as the spans between the delimiters that a
walk meets with nothing open.  The spans tile the text, and no span cuts through a pair of real
brackets (`splitOn_eq_spans`).  A comma that is met with nothing open separates two texts that can
be split one by one (`splitCommas_append`).
-/

namespace SorobanLint

open Text

/-- A part of a text. -/
structure Span where
  /-- The offset of its first character. -/
  start : Nat
  /-- The offset behind its last character. -/
  stop : Nat
deriving DecidableEq, Repr

/-- The part of the text that the span gives. -/
def Span.of (span : Span) (text : List Char) : List Char :=
  (text.take span.stop).drop span.start

namespace Bracket

/-- The spans between the delimiters met with nothing open, among visits of which the first is that
of the character at the offset `index`; the span that is being read begins at `start`. -/
def spansFrom (isDelimiter : Char → Bool) (start index : Nat) : List Visit → List Span
  | [] => [⟨start, index⟩]
  | visit :: rest =>
    if isDelimiter visit.char && visit.before.isEmpty then
      ⟨start, index⟩ :: spansFrom isDelimiter (index + 1) (index + 1) rest
    else spansFrom isDelimiter start (index + 1) rest

/-- The spans of a text between the delimiters outside all brackets. -/
def spans (isDelimiter : Char → Bool) (text : List Char) : List Span :=
  spansFrom isDelimiter 0 0 (walk text)

/-- The spans tile the text from the offset on: the first begins there, each next one behind the
delimiter at the end of the one before, and the last one ends with the text. -/
inductive Tiles (d : Char) (text : List Char) : Nat → List Span → Prop where
  | last {start : Nat} (within : start ≤ text.length) : Tiles d text start [⟨start, text.length⟩]
  | cut {start stop : Nat} {parts : List Span} (ordered : start ≤ stop)
      (delimiter : text[stop]? = some d) (onward : Tiles d text (stop + 1) parts) :
      Tiles d text start (⟨start, stop⟩ :: parts)

variable {isDelimiter : Char → Bool} {stack : List Bracket} {previous : Option Char} {d : Char}
  {start : Nat} {s t text : List Char} {parts : List Span}

namespace Tiles

theorem ne_nil (tiles : Tiles d text start parts) : parts ≠ [] := by
  cases tiles <;> simp

/-- A span, the delimiter behind it and the rest of the text make the text from the span on. -/
theorem of_append_drop {stop : Nat} (ordered : start ≤ stop) (delimiter : text[stop]? = some d) :
    Span.of ⟨start, stop⟩ text ++ d :: text.drop (stop + 1) = text.drop start := by
  obtain ⟨within, here⟩ := List.getElem?_eq_some_iff.mp delimiter
  have below : start ≤ (text.take stop).length := by
    rw [List.length_take]
    omega
  rw [Span.of, ← here, List.getElem_cons_drop within, ← List.drop_append_of_le_length below,
    List.take_append_drop]

theorem intercalate_of (tiles : Tiles d text start parts) :
    [d].intercalate (parts.map (·.of text)) = text.drop start := by
  induction tiles with
  | last within => simp [Span.of]
  | @cut start stop parts ordered delimiter onward ih =>
      obtain ⟨next, more, rfl⟩ := List.exists_cons_of_ne_nil onward.ne_nil
      rw [List.map_cons] at ih
      rw [List.map_cons, List.map_cons, List.intercalate_cons_cons, ih,
        List.append_assoc, List.singleton_append, of_append_drop ordered delimiter]

/-- Every span ends behind its start, and a delimiter stands in front of all but the first. -/
theorem bounds (tiles : Tiles d text start parts) {span : Span} (mem : span ∈ parts) :
    span.start ≤ span.stop ∧
      (span.start = start ∨ ∃ front, text.take span.start = front ++ [d]) := by
  induction tiles with
  | last within =>
      obtain rfl := List.mem_singleton.mp mem
      exact ⟨within, .inl rfl⟩
  | @cut start stop parts ordered delimiter onward ih =>
      rcases List.mem_cons.mp mem with rfl | later
      · exact ⟨ordered, .inl rfl⟩
      · obtain ⟨inside, first | behind⟩ := ih later
        · refine ⟨inside, .inr ⟨text.take stop, ?_⟩⟩
          rw [first, List.take_add_one, delimiter]
          rfl
        · exact ⟨inside, .inr behind⟩

theorem start_le (tiles : Tiles d text start parts) : ∀ span ∈ parts, start ≤ span.start := by
  induction tiles with
  | last within => simp
  | @cut start stop parts ordered delimiter onward ih =>
      rw [List.forall_mem_cons]
      refine ⟨Nat.le_refl start, fun span mem => ?_⟩
      have behind := ih span mem
      omega

/-- The spans come one behind the other. -/
theorem pairwise (tiles : Tiles d text start parts) : parts.Pairwise (·.stop ≤ ·.start) := by
  induction tiles with
  | last within => exact List.pairwise_singleton _ _
  | cut ordered delimiter onward ih =>
      refine List.pairwise_cons.mpr ⟨fun span mem => ?_, ih⟩
      exact Nat.le_of_succ_le (onward.start_le span mem)

end Tiles

theorem spansFrom_walkFrom_cons (isDelimiter : Char → Bool) (start index : Nat)
    (stack : List Bracket) (previous : Option Char) (c : Char) (rest : List Char) :
    spansFrom isDelimiter start index (walkFrom stack previous (c :: rest)) =
      let later := walkFrom (step stack previous c rest.head?) (some c) rest
      if isDelimiter c && stack.isEmpty then
        ⟨start, index⟩ :: spansFrom isDelimiter (index + 1) (index + 1) later
      else spansFrom isDelimiter start (index + 1) later := rfl

/-- The spans that are read behind the front of a text tile the text from any offset in the front
on. -/
theorem tiles_spansFrom (stack : List Bracket) (previous : Option Char) (front rest : List Char)
    (within : start ≤ front.length) :
    Tiles d (front ++ rest) start
      (spansFrom (· = d) start front.length (walkFrom stack previous rest)) := by
  induction rest generalizing stack previous front start with
  | nil =>
      rw [List.append_nil]
      exact .last within
  | cons c rest ih =>
      have text_eq : front ++ c :: rest = (front ++ [c]) ++ rest := by simp
      have index_eq : (front ++ [c]).length = front.length + 1 := by simp
      rw [spansFrom_walkFrom_cons]
      dsimp only
      split
      next cut =>
        have same : c = d := by simpa using (Bool.and_eq_true_iff.mp cut).1
        have delimiter : (front ++ c :: rest)[front.length]? = some d := by simp [same]
        refine .cut within delimiter ?_
        rw [text_eq, ← index_eq]
        exact ih _ _ _ (Nat.le_refl _)
      next =>
        rw [text_eq, ← index_eq]
        exact ih _ _ _ (by omega)

theorem of_append (front current rest : List Char) :
    Span.of ⟨front.length, (front ++ current).length⟩ (front ++ current ++ rest) = current := by
  rw [Span.of, List.take_left, List.drop_left]

/-- Each slice is the part of the text that its span gives; the first one begins with the characters
that have been read already. -/
theorem map_of_spansFrom (stack : List Bracket) (previous : Option Char)
    (front current rest : List Char) :
    (spansFrom isDelimiter front.length (front ++ current).length
        (walkFrom stack previous rest)).map (·.of (front ++ current ++ rest)) =
      current.foldr consFirst (slicesFrom isDelimiter stack previous rest) := by
  induction rest generalizing stack previous front current with
  | nil =>
      rw [walkFrom, spansFrom, List.map_singleton, of_append, slicesFrom, foldr_consFirst,
        List.append_nil]
  | cons c rest ih =>
      have index_eq : (front ++ current ++ [c]).length = (front ++ current).length + 1 :=
        List.length_append
      rw [spansFrom_walkFrom_cons, slicesFrom]
      dsimp only
      split
      next cut =>
        have onward := ih (step stack previous c rest.head?) (some c) (front ++ current ++ [c]) []
        rw [List.append_nil, index_eq, List.append_assoc, List.singleton_append] at onward
        rw [foldr_consFirst, List.append_nil, List.map_cons, of_append]
        exact congrArg _ onward
      next =>
        have onward := ih (step stack previous c rest.head?) (some c) front (current ++ [c])
        rw [← List.append_assoc, index_eq, List.append_assoc, List.singleton_append,
          List.foldr_append] at onward
        exact onward

theorem map_of_spans (isDelimiter : Char → Bool) (text : List Char) :
    (spans isDelimiter text).map (·.of text) = slices isDelimiter text :=
  map_of_spansFrom [] none [] [] text

theorem tiles_spans (d : Char) (text : List Char) : Tiles d text 0 (spans (· = d) text) :=
  tiles_spansFrom [] none [] text (Nat.le_refl 0)

/-- The text up to the end of one of its spans ends with the span. -/
theorem take_append_of {span : Span} (mem : span ∈ spans (· = d) text) :
    text.take span.start ++ span.of text = text.take span.stop := by
  have ordered := ((tiles_spans d text).bounds mem).1
  have front_eq : text.take span.start = (text.take span.stop).take span.start := by
    rw [List.take_take, Nat.min_eq_left ordered]
  rw [front_eq, Span.of, List.take_append_drop]

/-- A text is what stands in front of one of its spans, the span, and what stands behind it. -/
theorem append_of_mem_spans {span : Span} (mem : span ∈ spans (· = d) text) :
    text.take span.start ++ (span.of text ++ text.drop span.stop) = text := by
  rw [← List.append_assoc, take_append_of mem, List.take_append_drop]

/-- In front of a span stands a delimiter, unless the text begins with the span. -/
theorem eq_of_last_before_span {span : Span} (mem : span ∈ spans (· = d) text) :
    ∀ c ∈ (text.take span.start).getLast?, c = d := by
  obtain ⟨-, first | ⟨before, behind_delimiter⟩⟩ := (tiles_spans d text).bounds mem
  · rw [first, List.take_zero]
    exact nofun
  · rw [behind_delimiter, List.getLast?_concat]
    rintro c ⟨⟩
    rfl

/-! ## Slices of a text whose brackets pair up -/

/-- Only the first slice is read with brackets open, since nothing is open where a text is cut. -/
theorem slicesFrom_wellNested (opens_nothing : opened? d = none) (closes_nothing : closed? d = none)
    (stack : List Bracket) (previous : Option Char)
    (nested : realRun? (real stack) text = some []) :
    ∃ first more, slicesFrom (· = d) stack previous text = first :: more ∧
      realRun? (real stack) first = some [] ∧ ∀ slice ∈ more, WellNested slice := by
  induction text generalizing stack previous with
  | nil => exact ⟨[], [], rfl, nested, nofun⟩
  | cons c rest ih =>
      rw [realRun?, Option.bind_eq_some_iff] at nested
      obtain ⟨behind, step_eq, onward⟩ := nested
      have behind_eq : real (step stack previous c rest.head?) = behind := by
        rw [realStep?_real stack previous c rest.head?] at step_eq
        split at step_eq
        · contradiction
        · exact Option.some.inj step_eq
      rw [← behind_eq] at onward
      obtain ⟨first, more, slices_eq, first_nested, more_nested⟩ := ih _ (some c) onward
      rw [slicesFrom, slices_eq]
      split
      next cut =>
        simp only [Bool.and_eq_true, decide_eq_true_eq, List.isEmpty_iff] at cut
        obtain ⟨rfl, rfl⟩ := cut
        rw [real_step_other opens_nothing closes_nothing] at first_nested
        exact ⟨[], first :: more, rfl, rfl,
          List.forall_mem_cons.mpr ⟨wellNested_iff.mpr first_nested, more_nested⟩⟩
      next =>
        refine ⟨c :: first, more, rfl, ?_, more_nested⟩
        rw [realRun?, step_eq, Option.bind_some, ← behind_eq, first_nested]

theorem wellNested_of_mem_slices (opens_nothing : opened? d = none)
    (closes_nothing : closed? d = none) (nested : WellNested text) :
    ∀ slice ∈ slices (· = d) text, WellNested slice := by
  obtain ⟨first, more, slices_eq, first_nested, more_nested⟩ :=
    slicesFrom_wellNested opens_nothing closes_nothing [] none (wellNested_iff.mp nested)
  rw [slices, slices_eq]
  exact List.forall_mem_cons.mpr ⟨wellNested_iff.mpr first_nested, more_nested⟩

theorem splitOn_singleton (d : Char) (text : List Char) :
    splitOn [d] text = splitWhere (· = d) text := by
  have same : (fun c => decide ([d] = [c])) = fun c => decide (c = d) := by
    funext c
    simp [eq_comm]
  rw [splitOn, same]

/-- The split at a delimiter gives the parts of the text between its delimiters outside all
brackets, trimmed and without the empty ones.  The spans of these parts tile the text, so that the
parts, joined by the delimiter, are the text again; if the real brackets of the text pair up, those
of each part do so, too. -/
theorem splitOn_eq_spans {d : Char} (no_bracket : d ∉ ['(', ')', '[', ']', '\x7b', '\x7d'])
    (text : List Char) :
    splitOn [d] text =
        ((spans (· = d) text).map fun span => trim (span.of text)).filter (· ≠ []) ∧
      Tiles d text 0 (spans (· = d) text) ∧
      [d].intercalate ((spans (· = d) text).map (·.of text)) = text ∧
      (WellNested text → ∀ span ∈ spans (· = d) text, WellNested (span.of text)) := by
  simp only [List.mem_cons, List.not_mem_nil, or_false, not_or] at no_bracket
  have opens_nothing : opened? d = none := by simp [opened?, no_bracket]
  have closes_nothing : closed? d = none := by simp [closed?, no_bracket]
  refine ⟨?_, tiles_spans d text, (tiles_spans d text).intercalate_of, ?_⟩
  · rw [splitOn_singleton, splitWhere, ← map_of_spans, List.map_map]
    rfl
  · intro nested span mem
    refine wellNested_of_mem_slices opens_nothing closes_nothing nested _ ?_
    rw [← map_of_spans]
    exact List.mem_map_of_mem mem

/-- A comparison, a list in angle brackets and a call, each with its brackets. -/
theorem splitOn_eq_spans_comparison :
    let text := "f(a, b), x < y, Vec<(u8, u8)>,".toList
    let parts := spans (· = ',') text
    ',' ∉ ['(', ')', '[', ']', '\x7b', '\x7d'] ∧ WellNested text ∧
      parts = [⟨0, 7⟩, ⟨8, 14⟩, ⟨15, 29⟩, ⟨30, 30⟩] ∧
      splitOn [','] text = ["f(a, b)".toList, "x < y".toList, "Vec<(u8, u8)>".toList] ∧
      Tiles ',' text 0 parts ∧ [','].intercalate (parts.map (·.of text)) = text ∧
      ∀ span ∈ parts, WellNested (span.of text) := by
  intro text parts
  have no_bracket : ',' ∉ ['(', ')', '[', ']', '\x7b', '\x7d'] := by decide
  have nested : WellNested text := by decide
  obtain ⟨split_eq, tiles, joined, parts_nested⟩ := splitOn_eq_spans no_bracket text
  exact ⟨no_bracket, nested, by decide, split_eq.trans (by decide), tiles, joined,
    parts_nested nested⟩

/-! ## Two texts with a comma between them -/

/-- What a walk meets in front of a comma does not depend on the comma. -/
theorem step_comma (stack : List Bracket) (previous : Option Char) (c : Char) :
    step stack previous c (some ',') = step stack previous c none := rfl

/-- A comma met with nothing open parts the slices in front of it from those behind it. -/
theorem slicesFrom_append (stack : List Bracket) (previous : Option Char)
    (settled : ∀ visit ∈ (walkFrom stack previous s).getLast?, visit.after = [])
    (begins : s = [] → stack = []) (t : List Char) :
    slicesFrom (· = ',') stack previous (s ++ ',' :: t) =
      slicesFrom (· = ',') stack previous s ++ slicesFrom (· = ',') [] (some ',') t := by
  induction s generalizing stack previous with
  | nil =>
      obtain rfl := begins rfl
      rfl
  | cons c s ih =>
      have step_eq :
          step stack previous c (s ++ ',' :: t).head? = step stack previous c s.head? := by
        cases s with
        | nil => exact step_comma stack previous c
        | cons d s => rfl
      rw [walkFrom, List.getLast?_cons] at settled
      have onward := ih (step stack previous c s.head?) (some c)
        (by
          intro visit mem
          exact settled visit (by simp [Visit.of, Option.mem_def.mp mem]))
        (by
          rintro rfl
          exact settled _ rfl)
      rw [List.cons_append, slicesFrom, slicesFrom, step_eq, onward]
      split
      · rfl
      · exact consFirst_append (slicesFrom_ne_nil _ _ _ _) _

/-- With nothing open, what stands in front of a text only matters to a `<` at its beginning. -/
theorem slicesFrom_comma_calm (no_angle : t.head? ≠ some '<') :
    slicesFrom (· = ',') [] (some ',') t = slicesFrom (· = ',') [] none t := by
  cases t with
  | nil => rfl
  | cons c rest =>
      have other : c ≠ '<' := by
        rintro rfl
        exact no_angle rfl
      have step_eq : step [] (some ',') c rest.head? = step [] none c rest.head? := by
        rw [step, step, if_neg other, if_neg other]
        split
        · have nothing : dropAngle [] = [] := rfl
          rw [nothing, ite_self, ite_self]
        · rfl
      rw [slicesFrom, slicesFrom, step_eq]

/-- If a walk through the first text ends with nothing open, and the second text does not begin with
a `<`, the two are split one by one. -/
theorem splitCommas_append (settled : ∀ visit ∈ (walk s).getLast?, visit.after = [])
    (no_angle : t.head? ≠ some '<') :
    splitCommas (s ++ ',' :: t) = splitCommas s ++ splitCommas t := by
  have cut := slicesFrom_append [] none settled (fun _ => rfl) t
  rw [slicesFrom_comma_calm no_angle] at cut
  rw [splitCommas, splitWhere, slices, cut, List.map_append, List.filter_append]
  rfl

/-- The first text has a comparison, a `<` that is dropped and a closer too many. -/
theorem splitCommas_append_comparison :
    let front := "a < b, (c<d), e)".toList
    let back := "> f, [g, h]".toList
    (∀ visit ∈ (walk front).getLast?, visit.after = []) ∧ back.head? ≠ some '<' ∧
      splitCommas front = ["a < b".toList, "(c<d)".toList, "e)".toList] ∧
      splitCommas back = ["> f".toList, "[g, h]".toList] ∧
      splitCommas (front ++ ',' :: back) = splitCommas front ++ splitCommas back := by
  intro front back
  have settled : ∀ visit ∈ (walk front).getLast?, visit.after = [] := by decide
  have no_angle : back.head? ≠ some '<' := by decide
  exact ⟨settled, no_angle, by decide, by decide, splitCommas_append settled no_angle⟩

end Bracket

/-! ## Fields -/

namespace Field

variable {text lead : List Char} {start stop : Nat} {parts : List Span}

theorem take_add_of_leading (leading : lead <+: Span.of ⟨start, stop⟩ text) :
    text.take (start + lead.length) = text.take start ++ lead := by
  have inside : lead <+: text.drop start := by
    refine leading.trans ?_
    rw [Span.of, List.drop_take]
    exact List.take_prefix _ _
  rw [List.take_add, ← List.prefix_iff_eq_take.mp inside]

/-- The field in a part of a struct's body, which begins on the given line. -/
def readSpan (line : Nat) (body : List Char) (span : Span) : Option Field :=
  let lead := (span.of body).takeWhile isBlank
  parse? (span.of body) ((line + lineFeeds (body.take (span.start + lead.length)) : Nat) : Int)

theorem readFrom_of_tiles (line : Nat) (tiles : Bracket.Tiles ',' text start parts) :
    readFrom (line + lineFeeds (text.take start)) (parts.map (·.of text)) =
      parts.flatMap fun span => (readSpan line text span).toList := by
  have here (start stop : Nat) :
      parse? (Span.of ⟨start, stop⟩ text) ((line + lineFeeds (text.take start) +
        lineFeeds ((Span.of ⟨start, stop⟩ text).takeWhile isBlank) : Nat) : Int) =
      readSpan line text ⟨start, stop⟩ := by
    rw [readSpan]
    dsimp only
    rw [take_add_of_leading (List.takeWhile_prefix _), lineFeeds_append, Nat.add_assoc]
  induction tiles with
  | last within =>
      rw [List.map_singleton, readFrom, here, readFrom]
      rfl
  | @cut start stop parts ordered delimiter onward ih =>
      have below : line + lineFeeds (text.take start) + lineFeeds (Span.of ⟨start, stop⟩ text) =
          line + lineFeeds (text.take (stop + 1)) := by
        obtain ⟨within, -⟩ := List.getElem?_eq_some_iff.mp delimiter
        have length_eq : start + (Span.of ⟨start, stop⟩ text).length = stop := by
          rw [Span.of, List.length_drop, List.length_take]
          dsimp only
          omega
        have text_eq := take_add_of_leading (List.prefix_refl (Span.of ⟨start, stop⟩ text))
        rw [length_eq] at text_eq
        rw [List.take_add_one, delimiter, text_eq, lineFeeds_append, lineFeeds_append,
          Nat.add_assoc, Nat.add_assoc]
        rfl
      rw [List.map_cons, readFrom, here, below, ih]
      rfl

/-- The fields of a struct are read from the parts of its body, each with the line on which its
first character behind the blanks stands. -/
theorem readAll_eq_spans (line : Nat) (body : List Char) :
    readAll line body =
      (Bracket.spans (· = ',') body).flatMap fun span => (readSpan line body span).toList := by
  rw [readAll, ← Bracket.map_of_spans]
  exact readFrom_of_tiles line (Bracket.tiles_spans ',' body)

end Field
end SorobanLint
