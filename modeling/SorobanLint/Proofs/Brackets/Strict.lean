import SorobanLint.Proofs.Brackets.Group
import SorobanLint.Proofs.Brackets.Open
import SorobanLint.Proofs.Brackets.Split

/-!
# Walks that break off at a closer

A strict walk breaks off at a closer that does not fit the innermost open bracket; a tolerant walk
passes over it.  Both show the real brackets that are open at every visit, and a strict walk breaks
off at the first closer that is a misfit among the real brackets, so that angle brackets and arrows
neither make an error nor hide one (`fault_iff_first_misfit`).  The search for the first group is a
loop over a strict walk (`firstGroup_eq_groupSpan`).
-/

namespace SorobanLint

/-- A closer at which a walk breaks off. -/
structure Misfit where
  /-- The closer. -/
  closer : Char
  /-- Its offset. -/
  offset : Nat
deriving DecidableEq, Repr

/-- What a walk yields. -/
structure Trail where
  /-- The visits. -/
  visits : List Visit
  /-- The closer at which the walk breaks off, if there is one. -/
  fault : Option Misfit
deriving DecidableEq, Repr

/-- The misfit with more characters in front of it. -/
def Misfit.shift (count : Nat) (misfit : Misfit) : Misfit :=
  { misfit with offset := count + misfit.offset }

/-- The trail with one more visit in front. -/
def Trail.cons (visit : Visit) (trail : Trail) : Trail where
  visits := visit :: trail.visits
  fault := trail.fault.map (·.shift 1)

/-- The number of characters that a walk through the text visits: those in front of its fault, or
all of them. -/
def Trail.reach (text : List Char) (trail : Trail) : Nat :=
  trail.fault.elim text.length Misfit.offset

/-- The visit is that of the character at the offset, and shows the real brackets open in front of
it and behind it. -/
structure Visit.Shows (text : List Char) (offset : Nat) (visit : Visit) : Prop where
  /-- The character. -/
  char_eq : text[offset]? = some visit.char
  /-- The real brackets in front of it. -/
  before_eq : Bracket.real visit.before = Bracket.openBrackets (text.take offset)
  /-- The real brackets behind it. -/
  after_eq : Bracket.real visit.after = Bracket.openBrackets (text.take (offset + 1))

namespace Bracket

variable {stack kinds : List Bracket} {previous : Option Char} {c : Char} {i : Nat}
  {text : List Char} {visit : Visit}

/-- What a walk yields that starts behind `previous` with the given stack; a strict one breaks off
at a wrong closer, in front of its visit. -/
def trailFrom (strict : Bool) (stack : List Bracket) (previous : Option Char) :
    List Char → Trail
  | [] => ⟨[], none⟩
  | c :: rest =>
    let visit := Visit.of stack previous c rest.head?
    if strict && visit.isWrongCloser then ⟨[], some ⟨c, 0⟩⟩
    else (trailFrom strict visit.after (some c) rest).cons visit

/-- What a walk through the text yields. -/
def trail (strict : Bool) (text : List Char) : Trail :=
  trailFrom strict [] none text

/-! ## Visits of a walk -/

theorem real_dropAngles (stack : List Bracket) : real (dropAngles stack) = real stack := by
  induction stack with
  | nil => rfl
  | cons kind below ih =>
      by_cases same : kind = angle
      · subst same
        exact ih
      · rw [dropAngles, List.dropWhile_cons_of_neg (by simpa using same)]

/-- The real brackets behind a visit follow from those in front of it, whatever its neighbours. -/
theorem openStep_real (stack : List Bracket) (previous : Option Char) (c : Char)
    (next : Option Char) :
    openStep (real stack) c = real (step stack previous c next) := by
  rw [openStep, realStep?_real stack previous c next]
  split
  next wrong =>
    -- A wrong closer only drops the angle brackets on top.
    simp only [Visit.isWrongCloser, Visit.of] at wrong
    split at wrong
    next kind closes =>
      rw [step_closer closes, if_neg (by simpa using wrong), real_dropAngles]
      rfl
    next => contradiction
  next => rfl

theorem length_walkFrom (stack : List Bracket) (previous : Option Char) (text : List Char) :
    (walkFrom stack previous text).length = text.length := by
  induction text generalizing stack previous with
  | nil => rfl
  | cons c text ih => rw [walkFrom, List.length_cons, List.length_cons, ih]

/-- A visit shows the real brackets that are open in front of its character and behind it. -/
theorem real_of_walkFrom (met : (walkFrom stack previous text)[i]? = some visit) :
    text[i]? = some visit.char ∧
      real visit.before = (text.take i).foldl openStep (real stack) ∧
      real visit.after = (text.take (i + 1)).foldl openStep (real stack) := by
  induction text generalizing stack previous i with
  | nil => contradiction
  | cons c rest ih =>
      have after_eq := openStep_real stack previous c rest.head?
      cases i with
      | zero =>
          obtain rfl := Option.some.inj met
          exact ⟨rfl, rfl, after_eq.symm⟩
      | succ i =>
          rw [walkFrom, List.getElem?_cons_succ] at met
          have onward := ih met
          simp only [Visit.of, ← after_eq] at onward
          exact onward

theorem shows_of_walk (met : (walk text)[i]? = some visit) : visit.Shows text i where
  char_eq := (real_of_walkFrom met).1
  before_eq := (real_of_walkFrom met).2.1
  after_eq := (real_of_walkFrom met).2.2

/-! ## The fault of a strict walk -/

theorem fault_cons_eq_some_iff {trail : Trail} :
    (trail.cons visit).fault = some ⟨c, i⟩ ↔ ∃ j, i = j + 1 ∧ trail.fault = some ⟨c, j⟩ := by
  rw [Trail.cons, Option.map_eq_some_iff]
  constructor
  · rintro ⟨misfit, fault, same⟩
    obtain ⟨rfl, rfl⟩ := Misfit.mk.inj same
    exact ⟨misfit.offset, Nat.add_comm _ _, fault⟩
  · rintro ⟨j, rfl, fault⟩
    exact ⟨_, fault, by rw [Misfit.shift, Nat.add_comm]⟩

/-- A strict walk breaks off where a run through the real brackets is stuck. -/
theorem trailFrom_of_stuck (stuck : realStep? (real stack) c = none) (rest : List Char) :
    trailFrom true stack previous (c :: rest) = ⟨[], some ⟨c, 0⟩⟩ := by
  rw [realStep?_real stack previous c rest.head?, ite_eq_left_iff] at stuck
  have wrong : (Visit.of stack previous c rest.head?).isWrongCloser = true := by
    by_contra right
    exact Option.some_ne_none _ (stuck right)
  rw [trailFrom, wrong]
  rfl

/-- Where a run through the real brackets goes on, a strict walk does, with the same real brackets
open. -/
theorem trailFrom_of_step (step_eq : realStep? (real stack) c = some kinds) (rest : List Char) :
    ∃ visit : Visit, real visit.after = kinds ∧
      trailFrom true stack previous (c :: rest) =
        (trailFrom true visit.after (some c) rest).cons visit := by
  rw [realStep?_real stack previous c rest.head?] at step_eq
  split at step_eq
  next => contradiction
  next right =>
    refine ⟨Visit.of stack previous c rest.head?, Option.some.inj step_eq, ?_⟩
    rw [trailFrom, Bool.true_and, if_neg right]

/-- The closer at which a strict walk breaks off, and the real brackets open in front of it. -/
theorem fault_strict_eq_some_iff :
    (trailFrom true stack previous text).fault = some ⟨c, i⟩ ↔
      text[i]? = some c ∧
        ∃ kinds, realRun? (real stack) (text.take i) = some kinds ∧ realStep? kinds c = none := by
  induction text generalizing stack previous i with
  | nil => simp [trailFrom]
  | cons d rest ih =>
      cases step_eq : realStep? (real stack) d with
      | none =>
          rw [trailFrom_of_stuck step_eq]
          cases i with
          | zero =>
              constructor
              · rintro ⟨⟩
                exact ⟨rfl, _, rfl, step_eq⟩
              · rintro ⟨⟨⟩, -⟩
                rfl
          | succ i => simp [realRun?, step_eq]
      | some kinds =>
          obtain ⟨visit, rfl, trail_eq⟩ := trailFrom_of_step step_eq rest
          rw [trail_eq, fault_cons_eq_some_iff]
          cases i with
          | zero =>
              constructor
              · rintro ⟨_, zero_eq, -⟩
                contradiction
              · rintro ⟨⟨⟩, _, ⟨⟩, stuck⟩
                rw [step_eq] at stuck
                contradiction
          | succ i =>
              rw [List.getElem?_cons_succ, List.take_succ_cons, realRun?, step_eq,
                Option.bind_some, ← ih]
              constructor
              · rintro ⟨j, same, fault⟩
                obtain rfl := Nat.succ.inj same
                exact fault
              · intro later
                exact ⟨i, rfl, later⟩

theorem fault_strict_eq_none_iff :
    (trailFrom true stack previous text).fault = none ↔ realRun? (real stack) text ≠ none := by
  induction text generalizing stack previous with
  | nil => simp [trailFrom, realRun?]
  | cons d rest ih =>
      rw [realRun?]
      cases step_eq : realStep? (real stack) d with
      | none => simp [trailFrom_of_stuck step_eq]
      | some kinds =>
          obtain ⟨visit, rfl, trail_eq⟩ := trailFrom_of_step step_eq rest
          rw [trail_eq, Trail.cons, Option.map_eq_none_iff, ih, Option.bind_some]

/-- Nothing but the real brackets of a text matters to the closer at which a strict walk breaks
off. -/
theorem fault_filter_isReal (text : List Char) :
    (trail true (text.filter isReal)).fault =
      (trail true text).fault.map fun misfit =>
        { misfit with offset := ((text.take misfit.offset).filter isReal).length } := by
  cases fault : (trail true text).fault with
  | none =>
      rw [trail, fault_strict_eq_none_iff] at fault
      rw [Option.map_none, trail, fault_strict_eq_none_iff, realRun?_filter_isReal]
      exact fault
  | some misfit =>
      obtain ⟨here, kinds, run, stuck⟩ := fault_strict_eq_some_iff.mp fault
      have real_closer : isReal misfit.closer = true := by
        by_contra other
        rw [Bool.not_eq_true] at other
        rw [realStep?_of_not_isReal other] at stuck
        contradiction
      obtain ⟨within, closer_eq⟩ := List.getElem?_eq_some_iff.mp here
      have text_eq : text.filter isReal = (text.take misfit.offset).filter isReal ++
          misfit.closer :: (text.drop (misfit.offset + 1)).filter isReal := by
        rw [← List.filter_cons_of_pos real_closer, ← List.filter_append, ← closer_eq,
          List.getElem_cons_drop within, List.take_append_drop]
      rw [Option.map_some, trail, fault_strict_eq_some_iff, text_eq]
      refine ⟨by simp, kinds, ?_, stuck⟩
      rw [List.take_left, realRun?_filter_isReal]
      exact run

/-! ## Strict and tolerant walks -/

theorem reach_cons (c : Char) (rest : List Char) (visit : Visit) (trail : Trail) :
    (trail.cons visit).reach (c :: rest) = trail.reach rest + 1 := by
  rw [Trail.reach, Trail.cons, Trail.reach]
  cases trail.fault with
  | none => rfl
  | some misfit => exact Nat.add_comm 1 misfit.offset

theorem trail_tolerant (text : List Char) : trail false text = ⟨walk text, none⟩ := by
  suffices ∀ stack previous, trailFrom false stack previous text =
      ⟨walkFrom stack previous text, none⟩ from this [] none
  induction text with
  | nil => exact fun _ _ => rfl
  | cons c rest ih =>
      intro stack previous
      rw [trailFrom, walkFrom]
      simp only [Bool.false_and, Bool.false_eq_true, if_false, ih]
      rfl

/-- A strict walk visits the characters in front of its fault as a tolerant one does. -/
theorem visits_strict (stack : List Bracket) (previous : Option Char) (text : List Char) :
    (trailFrom true stack previous text).visits =
      (walkFrom stack previous text).take ((trailFrom true stack previous text).reach text) := by
  induction text generalizing stack previous with
  | nil => rfl
  | cons c rest ih =>
      rw [trailFrom, walkFrom]
      simp only [Bool.true_and]
      split
      next => rfl
      next =>
        rw [reach_cons, List.take_succ_cons, ← ih]
        rfl

/-- No closer that a strict walk gets to is a misfit, and it gets no further than the end of the
text. -/
theorem reach_strict (text : List Char) :
    (trail true text).reach text ≤ text.length ∧
      ∀ j < (trail true text).reach text, ¬MisfitAt text j := by
  rw [Trail.reach]
  cases fault : (trail true text).fault with
  | none =>
      rw [trail, fault_strict_eq_none_iff, Option.ne_none_iff_exists'] at fault
      obtain ⟨kinds, run⟩ := fault
      obtain rfl := foldl_openStep_of_realRun? run
      refine ⟨le_rfl, forall_not_misfitAt_iff.mpr ?_⟩
      rw [Option.elim_none, List.take_length]
      exact run
  | some misfit =>
      obtain ⟨here, stuck⟩ := fault_strict_eq_some_iff.mp fault
      obtain ⟨within, -⟩ := List.getElem?_eq_some_iff.mp here
      exact ⟨Nat.le_of_lt within, ((first_misfit_iff here).mpr stuck).2⟩

theorem visits_prefix_walk (strict : Bool) (text : List Char) :
    (trail strict text).visits <+: walk text := by
  cases strict with
  | false => rw [trail_tolerant]
  | true =>
      rw [trail, visits_strict]
      exact List.take_prefix _ _

theorem length_visits (strict : Bool) (text : List Char) :
    (trail strict text).visits.length = (trail strict text).reach text := by
  cases strict with
  | false =>
      rw [trail_tolerant]
      exact length_walkFrom [] none text
  | true =>
      rw [trail, visits_strict, ← trail, List.length_take, length_walkFrom,
        Nat.min_eq_left (reach_strict text).1]

theorem shows_of_visits {strict : Bool} (met : (trail strict text).visits[i]? = some visit) :
    visit.Shows text i := by
  obtain ⟨later, walk_eq⟩ := visits_prefix_walk strict text
  obtain ⟨within, -⟩ := List.getElem?_eq_some_iff.mp met
  refine shows_of_walk ?_
  rw [← walk_eq, List.getElem?_append_left within, met]

/-- What a strict walk shows as open has no partner in the text in front. -/
theorem opens_of_visits (met : (trail true text).visits[i]? = some visit) :
    Opens (real visit.before) (text.take i) ∧ Opens (real visit.after) (text.take (i + 1)) := by
  obtain ⟨within, -⟩ := List.getElem?_eq_some_iff.mp met
  rw [length_visits] at within
  have fits := (reach_strict text).2
  have shows := shows_of_visits met
  rw [shows.before_eq, shows.after_eq, opens_openBrackets_iff, opens_openBrackets_iff]
  exact ⟨fun j before => fits j (before.trans within), fun j before => fits j (by omega)⟩

theorem strict_eq_tolerant_iff :
    (trail true text).fault = none ↔ trail true text = trail false text := by
  constructor
  · intro fault
    have whole := length_visits true text
    rw [Trail.reach, fault, Option.elim_none, ← length_walkFrom [] none text] at whole
    have same : (trail true text).visits = walk text :=
      (visits_prefix_walk true text).eq_of_length whole
    rw [trail_tolerant, ← same, ← fault]
  · intro same
    rw [same, trail_tolerant]

/-- A strict walk breaks off at the first closer that is a misfit among the real brackets, and
nothing but the real brackets matters to it.  Every visit of a walk, strict or tolerant, shows the
real brackets open in front of it and behind it, which on a strict walk are those without a partner;
there is one visit for each character that the walk reaches.  A strict walk without a fault is the
tolerant one. -/
theorem fault_iff_first_misfit (text : List Char) :
    (∀ c i, (trail true text).fault = some ⟨c, i⟩ ↔
      text[i]? = some c ∧ MisfitAt text i ∧ ∀ j < i, ¬MisfitAt text j) ∧
    (trail true (text.filter isReal)).fault =
      (trail true text).fault.map (fun misfit =>
        { misfit with offset := ((text.take misfit.offset).filter isReal).length }) ∧
    (∀ strict, (trail strict text).visits.length = (trail strict text).reach text) ∧
    (∀ strict i, ∀ visit ∈ (trail strict text).visits[i]?, Visit.Shows text i visit) ∧
    (∀ i, ∀ visit ∈ (trail true text).visits[i]?,
      Opens (real visit.before) (text.take i) ∧
      Opens (real visit.after) (text.take (i + 1))) ∧
    ((trail true text).fault = none ↔ trail true text = trail false text) := by
  refine ⟨?_, fault_filter_isReal text, (length_visits · text), fun _ _ _ => shows_of_visits,
    fun _ _ => opens_of_visits, strict_eq_tolerant_iff⟩
  intro c i
  rw [trail, fault_strict_eq_some_iff]
  constructor
  · rintro ⟨here, stuck⟩
    exact ⟨here, (first_misfit_iff here).mpr stuck⟩
  · rintro ⟨here, first⟩
    exact ⟨here, (first_misfit_iff here).mp first⟩

/-- The `<` in the parenthesis is dropped by the closer that fits, and the arrow closes nothing. -/
example : (trail true "f(a<b) -> [c)".toList).fault = some ⟨')', 12⟩ := by decide

/-! ## The first group as a loop over a strict walk -/

/-- Whether the visit is an edge of the first group: its opener, outside all brackets, or its closer
once the opener has been met. -/
def isGroupEdge (start : Option Nat) (visit : Visit) : Bool :=
  match start with
  | none => visit.char = '(' && visit.before = []
  | some _ => visit.char = ')' && visit.after = []

/-- The first group among visits with a fault behind them; the first visit is that of the character
at the offset `index`, and `start` is the offset of the opener once this has been met. -/
def groupSpan (start : Option Nat) (index : Nat) (fault : Option Misfit) :
    List Visit → Except Misfit (Option Span)
  | [] => fault.elim (.ok none) .error
  | visit :: rest =>
    if isGroupEdge start visit then
      match start with
      | none => groupSpan (some index) (index + 1) fault rest
      | some opener => .ok (some ⟨opener, index⟩)
    else groupSpan start (index + 1) fault rest

theorem groupSpan_cons (start : Option Nat) (index : Nat) (fault : Option Misfit) (visit : Visit)
    (rest : List Visit) :
    groupSpan start index fault (visit :: rest) =
      if isGroupEdge start visit then
        match start with
        | none => groupSpan (some index) (index + 1) fault rest
        | some opener => .ok (some ⟨opener, index⟩)
      else groupSpan start (index + 1) fault rest := rfl

theorem beginsGroup_eq :
    beginsGroup = fun visit => visit.isWrongCloser || isGroupEdge none visit := rfl

theorem endsGroup_eq (opener : Nat) :
    endsGroup = fun visit => visit.isWrongCloser || isGroupEdge (some opener) visit := rfl

/-- The loop over a strict walk gets as far as the search for an edge of the group that wrong
closers stop, too. -/
theorem groupSpan_trailFrom (start : Option Nat) (index : Nat) (stack : List Bracket)
    (previous : Option Char) (text : List Char) :
    groupSpan start index ((trailFrom true stack previous text).fault.map (·.shift index))
        (trailFrom true stack previous text).visits =
      match stopFrom? (fun visit => visit.isWrongCloser || isGroupEdge start visit) stack previous
        text with
      | none => .ok none
      | some stop =>
        let place := index + stop.before.length
        let onward := trailFrom true stop.visit.after (some stop.visit.char) stop.after
        if stop.visit.isWrongCloser then .error ⟨stop.visit.char, place⟩
        else
          match start with
          | none =>
            groupSpan (some place) (place + 1) (onward.fault.map (·.shift (place + 1)))
              onward.visits
          | some opener => .ok (some ⟨opener, place⟩) := by
  induction text generalizing stack previous index with
  | nil => rfl
  | cons c rest ih =>
      rw [trailFrom, stopFrom?, Bool.true_and]
      generalize visit_eq : Visit.of stack previous c rest.head? = visit
      have char_eq : visit.char = c := by rw [← visit_eq]; rfl
      cases wrong : visit.isWrongCloser with
      | true => simp [groupSpan, Misfit.shift, wrong, char_eq]
      | false =>
          have shifted : ((trailFrom true visit.after (some c) rest).cons visit).fault.map
              (·.shift index) =
              (trailFrom true visit.after (some c) rest).fault.map (·.shift (index + 1)) := by
            simp only [Trail.cons, Option.map_map, Function.comp_def, Misfit.shift, Nat.add_assoc]
          rw [if_neg Bool.false_ne_true, shifted, Trail.cons, groupSpan_cons, Bool.false_or]
          split
          next => simp [wrong, char_eq]
          next =>
            rw [ih]
            cases stopFrom? _ visit.after (some c) rest with
            | none => rfl
            | some stop =>
                have place_eq :
                    index + 1 + stop.before.length = index + (c :: stop.before).length := by
                  rw [List.length_cons]
                  omega
                simp only [place_eq, Option.map_some]

/-- The parts of a text between two characters, by the offsets of these. -/
theorem parts_of_offsets (before inner after : List Char) (opener closer : Char) :
    let text := before ++ opener :: (inner ++ closer :: after)
    let place := before.length + 1 + inner.length
    text.take before.length = before ∧ Span.of ⟨before.length + 1, place⟩ text = inner ∧
      text.drop (place + 1) = after := by
  intro text place
  have text_eq : text = (before ++ [opener]) ++ inner ++ closer :: after := by simp [text]
  have start_eq : before.length + 1 = (before ++ [opener]).length := by simp
  have place_eq : place = ((before ++ [opener]) ++ inner).length := by
    simp [place, Nat.add_comm, Nat.add_left_comm]
  refine ⟨List.take_left, ?_, ?_⟩
  · rw [text_eq, place_eq, start_eq, of_append]
  · rw [text_eq, place_eq, List.drop_add_one_eq_tail_drop, List.drop_left, List.tail_cons]

/-- The search for the first group is a loop over a strict walk: it finds a group exactly if the
loop does, and the closer that ends it is the one at which the walk breaks off. -/
theorem firstGroup_eq_groupSpan (text : List Char) :
    firstGroup text =
      match groupSpan none 0 (trail true text).fault (trail true text).visits with
      | .ok (some span) =>
        .found (text.take span.start) (Span.of ⟨span.start + 1, span.stop⟩ text)
          (text.drop (span.stop + 1))
      | .ok none => .incomplete
      | .error misfit => .wrongCloser misfit.closer misfit.offset := by
  have outside := groupSpan_trailFrom none 0 [] none text
  have unmoved : (fun misfit : Misfit => misfit.shift 0) = id := by
    funext misfit
    rw [Misfit.shift, Nat.zero_add, id]
  rw [unmoved, Option.map_id, id_eq, ← trail, ← beginsGroup_eq, ← stop?] at outside
  rw [outside, firstGroup_eq_match]
  cases opened : stop? beginsGroup text with
  | none => rfl
  | some head =>
      have text_eq := append_of_stopFrom? opened
      simp only [Nat.zero_add]
      split
      next => rfl
      next right =>
        have opener : head.visit.char = '(' := by
          have begins := hit_of_stopFrom? opened
          simp only [beginsGroup, right, Bool.false_or, Bool.and_eq_true,
            decide_eq_true_eq] at begins
          exact begins.1
        rw [opener, groupSpan_trailFrom, ← endsGroup_eq]
        cases closed : stopFrom? endsGroup head.visit.after (some '(') head.after with
        | none => rfl
        | some tail =>
            dsimp only
            split
            next => rfl
            next =>
              rw [append_of_stopFrom? closed] at text_eq
              obtain ⟨front_eq, inner_eq, rest_eq⟩ := parts_of_offsets head.before tail.before
                tail.after head.visit.char tail.visit.char
              rw [← text_eq] at front_eq inner_eq rest_eq
              dsimp only
              rw [front_eq, inner_eq, rest_eq]

end Bracket
end SorobanLint
