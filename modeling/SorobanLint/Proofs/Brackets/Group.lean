import SorobanLint.Proofs.Brackets.Real
import SorobanLint.Proofs.Reading

/-!
# The first group in parentheses

The search for a text in parentheses has an answer exactly if the text has a first group: a
parenthesis outside all brackets, in front of which no closer is wrong, and a closing one behind a
text whose real brackets pair up (`insideParens_iff_firstGroup`).  Angle brackets in that text
neither hide the closing parenthesis nor stand in for it: they always lie above the opening one on
the stack, and every closer drops them.
-/

namespace SorobanLint
namespace Bracket

variable {hit : Visit → Bool} {stack upper : List Bracket} {previous next : Option Char}
  {c : Char} {s t text before inner after : List Char} {visit : Visit} {stop : Stop}

/-! ## Searches along a walk -/

/-- What a walk meets up to a character depends on nothing behind the next one. -/
theorem exists_visit (stack : List Bracket) (previous : Option Char) (s : List Char) (c : Char) :
    ∃ visits middle last, ∀ t,
      (walkFrom stack previous (s ++ c :: t)).take s.length = visits ∧
      (walkFrom stack previous (s ++ c :: t))[s.length]? =
        some (Visit.of middle last c t.head?) := by
  induction s generalizing stack previous with
  | nil => exact ⟨[], stack, previous, fun _ => ⟨rfl, rfl⟩⟩
  | cons d s ih =>
      obtain ⟨visits, middle, last, met⟩ := ih (step stack previous d (s ++ [c]).head?) (some d)
      refine ⟨Visit.of stack previous d (s ++ [c]).head? :: visits, middle, last, ?_⟩
      intro t
      have next_eq : (s ++ c :: t).head? = (s ++ [c]).head? := by
        cases s <;> rfl
      obtain ⟨visits_eq, visit_eq⟩ := met t
      rw [List.cons_append, walkFrom, next_eq, List.length_cons, List.take_succ_cons,
        List.getElem?_cons_succ]
      exact ⟨congrArg _ visits_eq, visit_eq⟩

/-- A search that stops has passed over all visits in front. -/
theorem misses_of_stopFrom? (found : stopFrom? hit stack previous text = some stop) :
    ∀ visit ∈ (walkFrom stack previous text).take stop.before.length, hit visit = false := by
  induction text generalizing stack previous stop with
  | nil => contradiction
  | cons c rest ih =>
      rw [stopFrom?] at found
      split at found
      next => cases found; simp
      next missed =>
        obtain ⟨inner, inner_found, rfl⟩ := Option.map_eq_some_iff.mp found
        rw [List.length_cons, walkFrom, List.take_succ_cons, List.forall_mem_cons]
        exact ⟨by simpa using missed, ih inner_found⟩

/-- A search stops at a visit of the walk. -/
theorem visit_of_stopFrom? (found : stopFrom? hit stack previous text = some stop) :
    (walkFrom stack previous text)[stop.before.length]? = some stop.visit := by
  induction text generalizing stack previous stop with
  | nil => contradiction
  | cons c rest ih =>
      rw [stopFrom?] at found
      split at found
      next =>
        cases found
        rfl
      next =>
        obtain ⟨inner, inner_found, rfl⟩ := Option.map_eq_some_iff.mp found
        exact ih inner_found

/-- A search stops at the first visit that it looks for. -/
theorem stopFrom?_eq_some
    (met : (walkFrom stack previous (s ++ c :: t))[s.length]? = some visit)
    (hits : hit visit = true)
    (misses : ∀ other ∈ (walkFrom stack previous (s ++ c :: t)).take s.length, hit other = false) :
    stopFrom? hit stack previous (s ++ c :: t) = some ⟨s, visit, t⟩ := by
  induction s generalizing stack previous with
  | nil =>
      obtain rfl := Option.some.inj met
      rw [List.nil_append, stopFrom?, if_pos hits]
  | cons d s ih =>
      rw [List.cons_append, walkFrom, List.length_cons, List.getElem?_cons_succ] at met
      rw [List.cons_append, walkFrom, List.length_cons, List.take_succ_cons,
        List.forall_mem_cons] at misses
      rw [List.cons_append, stopFrom?, misses.1, if_neg Bool.false_ne_true, ih met misses.2]
      rfl

/-! ## Inside a parenthesis -/

/-- A group is over, or cannot be completed: a closer is wrong, or a parenthesis closes the last
bracket. -/
def endsGroup (visit : Visit) : Bool :=
  visit.isWrongCloser || visit.char = ')' && visit.after = []

section Inside

theorem real_append_paren (upper : List Bracket) :
    real (upper ++ [paren]) = real upper ++ [paren] :=
  List.filter_append ..

/-- Real brackets inside a parenthesis open and close as they would outside of it. -/
theorem realStep?_append {behind : List Bracket} (inside : realStep? stack c = some behind)
    (below : List Bracket) : realStep? (stack ++ below) c = some (behind ++ below) := by
  cases opens : opened? c with
  | some kind =>
      rw [realStep?_opener opens] at inside ⊢
      rw [← Option.some.inj inside, List.cons_append]
  | none =>
      cases closes : closed? c with
      | some kind =>
          rw [realStep?_closer closes, Option.ite_none_right_eq_some] at inside
          obtain ⟨innermost, same⟩ := inside
          obtain ⟨deeper, rfl⟩ := List.head?_eq_some_iff.mp innermost
          obtain rfl := Option.some.inj same
          rw [realStep?_closer closes]
          simp
      | none =>
          rw [realStep?_other opens closes] at inside ⊢
          rw [Option.some.inj inside]

theorem dropAngle_append_paren (upper : List Bracket) :
    dropAngle (upper ++ [paren]) = dropAngle upper ++ [paren] := by
  cases upper with
  | nil => rfl
  | cons top below => cases top <;> rfl

/-- Above the parenthesis, a walk goes on as it would without it. -/
theorem step_append_paren (inside : realStep? (real upper) c ≠ none) :
    step (upper ++ [paren]) previous c next = step upper previous c next ++ [paren] := by
  cases opens : opened? c with
  | some kind => rw [step_opener opens, step_opener opens, List.cons_append]
  | none =>
      cases closes : closed? c with
      | some kind =>
          rw [realStep?_closer closes, Ne, ite_eq_right_iff] at inside
          rcases dropAngles_cases upper with ⟨-, real_eq⟩ | ⟨top, below, upper_eq, real_eq⟩
          · rw [real_eq] at inside
            simp at inside
          · have upper_append : dropAngles (upper ++ [paren]) = top :: (below ++ [paren]) := by
              have solid : upper.dropWhile (· = angle) = top :: below := upper_eq
              rw [dropAngles, List.dropWhile_append, solid]
              rfl
            have innermost : top = kind := by
              rw [real_eq] at inside
              simpa using inside
            rw [step_closer closes, step_closer closes, upper_append, upper_eq, innermost]
            simp
      | none =>
          rw [step, step, opens, closes]
          split
          · split <;> rfl
          · split
            · split
              · exact dropAngle_append_paren upper
              · rfl
            · rfl

variable (previous next) in
/-- A visit above the parenthesis that is right without it does not end the group. -/
theorem visit_inside {behind : List Bracket} (inside : realStep? (real upper) c = some behind) :
    endsGroup (Visit.of (upper ++ [paren]) previous c next) = false ∧
      (Visit.of (upper ++ [paren]) previous c next).after =
        step upper previous c next ++ [paren] ∧
      real (step upper previous c next) = behind := by
  have right : (Visit.of (upper ++ [paren]) previous c next).isWrongCloser = false := by
    have whole := realStep?_real (upper ++ [paren]) previous c next
    rw [real_append_paren, realStep?_append inside] at whole
    by_contra wrong
    rw [Bool.not_eq_false] at wrong
    rw [wrong] at whole
    contradiction
  have after_eq : (Visit.of (upper ++ [paren]) previous c next).after =
      step upper previous c next ++ [paren] := step_append_paren (by simp [inside])
  refine ⟨?_, after_eq, ?_⟩
  · simp [endsGroup, right, after_eq]
  · have alone := realStep?_real upper previous c next
    rw [inside] at alone
    split at alone
    · contradiction
    · exact (Option.some.inj alone).symm

/-- A visit that is only right because of the parenthesis closes it. -/
theorem visit_closing (outside : realStep? (real upper) c = none)
    (right : (Visit.of (upper ++ [paren]) previous c next).isWrongCloser = false) :
    real upper = [] ∧ c = ')' := by
  have whole := realStep?_real (upper ++ [paren]) previous c next
  rw [right, real_append_paren] at whole
  cases opens : opened? c with
  | some kind =>
      rw [realStep?_opener opens] at outside
      contradiction
  | none =>
      cases closes : closed? c with
      | none =>
          rw [realStep?_other opens closes] at outside
          contradiction
      | some kind =>
          rw [realStep?_closer closes] at outside whole
          cases real_eq : real upper with
          | nil =>
              refine ⟨rfl, ?_⟩
              rw [real_eq] at whole
              rcases eq_of_closed? closes with ⟨rfl, -⟩ | ⟨-, rfl⟩ | ⟨-, rfl⟩
              · rfl
              · contradiction
              · contradiction
          | cons top below =>
              rw [real_eq] at outside whole
              by_cases innermost : top = kind
              · simp [innermost] at outside
              · simp [innermost] at whole

variable (previous next) in
/-- The parenthesis is closed where nothing but angle brackets lies above it. -/
theorem visit_closer_paren (settled : real upper = []) :
    (Visit.of (upper ++ [paren]) previous ')' next).isWrongCloser = false ∧
      step (upper ++ [paren]) previous ')' next = [] := by
  have dropped : dropAngles (upper ++ [paren]) = [paren] := by
    have all_angles : ∀ kind ∈ upper, decide (kind = angle) = true := by
      simpa [real] using settled
    rw [dropAngles, List.dropWhile_append_of_pos all_angles]
    rfl
  constructor
  · rw [Visit.isWrongCloser, Visit.of]
    simp [closed?, dropped]
  · have closes : closed? ')' = some paren := rfl
    rw [step_closer closes, dropped]
    rfl

end Inside

/-- In front of the end of a group, its real brackets pair up. -/
theorem realRun?_of_endsGroup (upper : List Bracket)
    (found : stopFrom? endsGroup (upper ++ [paren]) previous text = some stop)
    (right : stop.visit.isWrongCloser = false) : realRun? (real upper) stop.before = some [] := by
  induction text generalizing upper previous stop with
  | nil => contradiction
  | cons c rest ih =>
      rw [stopFrom?] at found
      cases inside : realStep? (real upper) c with
      | some behind =>
          obtain ⟨missed, after_eq, behind_eq⟩ := visit_inside previous rest.head? inside
          rw [missed, if_neg Bool.false_ne_true, after_eq] at found
          obtain ⟨inner, inner_found, rfl⟩ := Option.map_eq_some_iff.mp found
          rw [realRun?, inside, Option.bind_some, ← behind_eq]
          exact ih _ inner_found right
      | none =>
          split at found
          next =>
            obtain rfl := Option.some.inj found
            obtain ⟨settled, -⟩ := visit_closing inside right
            rw [settled]
            rfl
          next missed =>
            simp only [endsGroup, Bool.or_eq_true, not_or, Bool.not_eq_true] at missed
            obtain ⟨settled, rfl⟩ := visit_closing inside missed.1
            have after_eq := (visit_closer_paren previous rest.head? settled).2
            simp [Visit.of, after_eq] at missed

/-- A text whose real brackets pair up is followed by the end of its group. -/
theorem stopFrom?_endsGroup (upper : List Bracket) (nested : realRun? (real upper) inner = some [])
    (previous : Option Char) (after : List Char) :
    ∃ before, stopFrom? endsGroup (upper ++ [paren]) previous (inner ++ ')' :: after) =
        some ⟨inner, ⟨')', before, []⟩, after⟩ ∧
      (Visit.mk ')' before []).isWrongCloser = false := by
  induction inner generalizing upper previous with
  | nil =>
      obtain ⟨right, after_eq⟩ :=
        visit_closer_paren previous after.head? (Option.some.inj nested)
      rw [Visit.of, after_eq] at right
      refine ⟨upper ++ [paren], ?_, right⟩
      rw [List.nil_append, stopFrom?, Visit.of, after_eq, if_pos (by simp [endsGroup])]
  | cons c inner ih =>
      rw [realRun?, Option.bind_eq_some_iff] at nested
      obtain ⟨behind, inside, onward⟩ := nested
      obtain ⟨missed, after_eq, behind_eq⟩ :=
        visit_inside previous (inner ++ ')' :: after).head? inside
      rw [← behind_eq] at onward
      obtain ⟨before, closed, right⟩ := ih _ onward (some c)
      refine ⟨before, ?_, right⟩
      rw [List.cons_append, stopFrom?, missed, if_neg Bool.false_ne_true, after_eq, closed]
      rfl

/-! ## The group and what stands in front of it -/

/-- A group begins, or cannot be looked for any further: a closer is wrong, or a parenthesis opens
outside all brackets. -/
def beginsGroup (visit : Visit) : Bool :=
  visit.isWrongCloser || visit.char = '(' && visit.before = []

/-- The text is cut at its first group in parentheses: at a parenthesis that a walk meets outside
all brackets, after it has met neither a wrong closer nor another such parenthesis, and at a
closing one behind a text whose real brackets pair up. -/
structure FirstGroup (text before inner after : List Char) : Prop where
  /-- The parts and the two parentheses make the text. -/
  text_eq : text = before ++ '(' :: (inner ++ ')' :: after)
  /-- No closer in front of the group is wrong. -/
  fits : ∀ visit ∈ (walk text).take before.length, visit.isWrongCloser = false
  /-- No parenthesis in front of the group is met outside all brackets. -/
  first : ∀ visit ∈ (walk text).take before.length, visit.char = '(' → visit.before ≠ []
  /-- The opening parenthesis is met outside all brackets. -/
  outside : ∀ visit ∈ (walk text)[before.length]?, visit.before = []
  /-- The real brackets inside the group pair up. -/
  nested : WellNested inner

theorem firstGroup_eq_match (text : List Char) :
    firstGroup text =
      match stop? beginsGroup text with
      | none => .incomplete
      | some head =>
        if head.visit.isWrongCloser then .wrongCloser head.visit.char head.before.length
        else
          match stopFrom? endsGroup head.visit.after (some '(') head.after with
          | none => .incomplete
          | some tail =>
            if tail.visit.isWrongCloser then
              .wrongCloser tail.visit.char (head.before.length + 1 + tail.before.length)
            else .found head.before tail.before tail.after := rfl

/-- A first group is found between the stop of a search for its opener and the stop of a search for
its closer. -/
theorem exists_stops_of_firstGroup (found : firstGroup text = .found before inner after) :
    ∃ head tail, stop? beginsGroup text = some head ∧ head.visit.isWrongCloser = false ∧
      stopFrom? endsGroup head.visit.after (some '(') head.after = some tail ∧
      tail.visit.isWrongCloser = false ∧
      before = head.before ∧ inner = tail.before ∧ after = tail.after := by
  rw [firstGroup_eq_match] at found
  split at found
  · contradiction
  next head opened =>
    split at found
    · contradiction
    next right_opener =>
      split at found
      · contradiction
      next tail closed =>
        split at found
        · contradiction
        next right_closer =>
          obtain ⟨rfl, rfl, rfl⟩ := GroupSearch.found.inj found
          rw [Bool.not_eq_true] at right_opener right_closer
          exact ⟨head, tail, opened, right_opener, closed, right_closer, rfl, rfl, rfl⟩

theorem firstGroup_of_stops {head tail : Stop} (opened : stop? beginsGroup text = some head)
    (right_opener : head.visit.isWrongCloser = false)
    (closed : stopFrom? endsGroup head.visit.after (some '(') head.after = some tail)
    (right_closer : tail.visit.isWrongCloser = false) :
    firstGroup text = .found head.before tail.before tail.after := by
  rw [firstGroup_eq_match]
  simp only [opened, right_opener, closed, right_closer, Bool.false_eq_true, if_false]

theorem firstGroup_of_found (found : firstGroup text = .found before inner after) :
    FirstGroup text before inner after := by
  have text_eq := append_of_firstGroup found
  obtain ⟨head, tail, opened, right_opener, closed, right_closer, rfl, rfl, rfl⟩ :=
    exists_stops_of_firstGroup found
  have begins := hit_of_stopFrom? opened
  have misses := misses_of_stopFrom? opened
  have met := visit_of_stopFrom? opened
  simp only [beginsGroup, right_opener, Bool.false_or, Bool.and_eq_true,
    decide_eq_true_eq] at begins
  simp only [beginsGroup, Bool.or_eq_false_iff, Bool.and_eq_false_iff,
    decide_eq_false_iff_not] at misses
  obtain ⟨_, middle, last, visit_eq⟩ := exists_visit [] none head.before '('
  replace visit_eq := (visit_eq (tail.before ++ ')' :: tail.after)).2
  rw [← text_eq, met] at visit_eq
  have after_eq : head.visit.after = [paren] := by
    have middle_eq : middle = [] := by
      rw [← begins.2, Option.some.inj visit_eq]
      rfl
    rw [Option.some.inj visit_eq, middle_eq]
    rfl
  rw [after_eq] at closed
  exact {
    text_eq
    fits := fun visit mem => (misses visit mem).1
    first := fun visit mem opens => (misses visit mem).2.resolve_left (not_not.mpr opens)
    outside := by
      rw [walk, met]
      rintro visit ⟨⟩
      exact begins.2
    nested := wellNested_iff.mpr
      (realRun?_of_endsGroup [] closed right_closer) }

theorem found_of_firstGroup (group : FirstGroup text before inner after) :
    firstGroup text = .found before inner after := by
  obtain ⟨rfl, fits, first, outside, nested⟩ := group
  obtain ⟨_, middle, last, visit_eq⟩ := exists_visit [] none before '('
  have met := (visit_eq (inner ++ ')' :: after)).2
  obtain rfl : middle = [] := outside _ met
  have misses : ∀ visit ∈ (walk (before ++ '(' :: (inner ++ ')' :: after))).take before.length,
      beginsGroup visit = false := by
    intro visit mem
    rw [beginsGroup, fits visit mem, Bool.false_or, Bool.and_eq_false_iff]
    by_cases opens : visit.char = '('
    · exact .inr (by simpa using first visit mem opens)
    · exact .inl (by simpa using opens)
  have begins : beginsGroup (Visit.of [] last '(' (inner ++ ')' :: after).head?) = true := rfl
  have opened := stopFrom?_eq_some met begins misses
  obtain ⟨deeper, closed, right⟩ :=
    stopFrom?_endsGroup [] (wellNested_iff.mp nested) (some '(') after
  exact firstGroup_of_stops opened rfl closed right

theorem firstGroup_eq_found_iff :
    firstGroup text = .found before inner after ↔ FirstGroup text before inner after :=
  ⟨firstGroup_of_found, found_of_firstGroup⟩

theorem insideParens?_eq_some_iff :
    insideParens? text = some inner ↔ ∃ before after, FirstGroup text before inner after := by
  simp only [← firstGroup_eq_found_iff, insideParens?]
  cases firstGroup text with
  | found before inside after =>
      constructor
      · rintro ⟨⟩
        exact ⟨before, after, rfl⟩
      · rintro ⟨_, _, ⟨⟩⟩
        rfl
  | wrongCloser closer offset => simp
  | incomplete => simp

/-- There is at most one first group. -/
theorem FirstGroup.unique {front inside rest : List Char}
    (group : FirstGroup text before inner after) (other : FirstGroup text front inside rest) :
    before = front ∧ inner = inside ∧ after = rest :=
  GroupSearch.found.inj
    ((firstGroup_eq_found_iff.mpr group).symm.trans (firstGroup_eq_found_iff.mpr other))

/-- What stands behind the first group does not matter. -/
theorem FirstGroup.replace (group : FirstGroup text before inner after) (rest : List Char) :
    FirstGroup (before ++ '(' :: (inner ++ ')' :: rest)) before inner rest := by
  obtain ⟨rfl, fits, first, outside, nested⟩ := group
  obtain ⟨visits, middle, last, met⟩ := exists_visit [] none before '('
  rw [walk, (met _).1] at fits first
  obtain rfl : middle = [] := outside _ (met _).2
  exact {
    text_eq := rfl
    fits := by rwa [walk, (met _).1]
    first := by rwa [walk, (met _).1]
    outside := by
      rw [walk, (met _).2]
      rintro visit ⟨⟩
      rfl
    nested }

/-- The text inside the first group is found, and nothing is found where there is none.  There is at
most one first group, and what stands behind it does not matter. -/
theorem insideParens_iff_firstGroup (text : List Char) :
    (∀ inner, insideParens? text = some inner ↔
      ∃ before after, FirstGroup text before inner after) ∧
    (insideParens? text = none ↔ ¬∃ before inner after, FirstGroup text before inner after) ∧
    (∀ before inner after front inside rest, FirstGroup text before inner after →
      FirstGroup text front inside rest → before = front ∧ inner = inside ∧ after = rest) ∧
    ∀ before inner after rest, FirstGroup text before inner after →
      FirstGroup (before ++ '(' :: (inner ++ ')' :: rest)) before inner rest := by
  refine ⟨fun _ => insideParens?_eq_some_iff, ?_, ?_, ?_⟩
  · rw [Option.eq_none_iff_forall_not_mem]
    constructor
    · rintro none_found ⟨before, inner, after, group⟩
      exact none_found inner (insideParens?_eq_some_iff.mpr ⟨before, after, group⟩)
    · intro no_group inner found
      obtain ⟨before, after, group⟩ := insideParens?_eq_some_iff.mp found
      exact no_group ⟨before, inner, after, group⟩
  · exact fun _ _ _ _ _ _ group other => group.unique other
  · exact fun _ _ _ rest group => group.replace rest

/-- The `<` in the group stays open up to the closing parenthesis, which drops it. -/
example : insideParens? "f<A>(a<b, x -> (c)) )".toList = some "a<b, x -> (c)".toList := by
  decide

end Bracket
end SorobanLint
