import SorobanLint.Proofs.Reads
import SorobanLint.Proofs.Render.Header

/-!
# Headers in front of more text

A header is matched at the end of a line, and once more in front of the lines below it if these
stand on the same line.  Without quotes in the text there is only one way to read a header up to its
name, and a name ends in front of a space at the latest; so the match records the same name at the
same place (`Function.header_append`).
-/

namespace SorobanLint

open Text

/-! ## Text behind -/

/-- The place with more text behind its own. -/
def Place.ahead (more : List Char) (place : Place) : Place :=
  ⟨place.before, place.after ++ more⟩

/-- The reach with more text behind its own. -/
def Reach.ahead (more : List Char) (reach : Reach) : Reach :=
  ⟨reach.place.ahead more,
    reach.group.map fun (start, stop) => (start.ahead more, stop.ahead more)⟩

namespace Place

variable {d : Char} {rest : List Char}

theorem pass?_ahead {chars : List Char} (absent : d ∉ chars) (place : Place) :
    (place.ahead (d :: rest)).pass? chars = (place.pass? chars).map (·.ahead (d :: rest)) := by
  induction chars generalizing place with
  | nil => rfl
  | cons c cs ih =>
      obtain ⟨other, absent⟩ := List.ne_and_not_mem_of_not_mem_cons absent
      obtain ⟨before, after⟩ := place
      cases after with
      | nil => simp [ahead, pass?, other.symm]
      | cons e after =>
          simp only [ahead, List.cons_append, pass?]
          split
          · exact ih absent ⟨e :: before, after⟩
          · rfl

theorem run_ahead {p : Char → Bool} (outside : p d = false) (before after : List Char) :
    run p before (after ++ d :: rest) = (run p before after).map (·.ahead (d :: rest)) := by
  induction after generalizing before with
  | nil => simp [run, outside, ahead]
  | cons c after ih =>
      rw [List.cons_append, run, run, List.map_cons]
      split
      · rw [ih]
        rfl
      · rfl

end Place

namespace Pattern

variable {d : Char} {rest : List Char}

/-- Whether the pattern reads no stretch with the character in it and looks at nothing else. -/
def shuns (d : Char) : Pattern → Bool
  | .text chars => !chars.contains d
  | .one p => !p d
  | .many p => !p d
  | .few p => !p d
  | .seq p q => p.shuns d && q.shuns d
  | .alt p q => p.shuns d && q.shuns d
  | .capture body => body.shuns d
  | .star _ | .edge | .notAfter _ | .first | .last => false

/-- A pattern stops in front of a character that it shuns as it stops at the end of the text. -/
theorem ends_ahead {pattern : Pattern} (shunned : pattern.shuns d = true) (reach : Reach) :
    pattern.ends (reach.ahead (d :: rest)) =
      (pattern.ends reach).map (·.ahead (d :: rest)) := by
  induction pattern generalizing reach with
  | text chars =>
      have absent : d ∉ chars := by simpa [shuns] using shunned
      simp only [ends, Reach.ahead, Place.pass?_ahead absent]
      cases reach.place.pass? chars <;> rfl
  | one p =>
      have outside : p d = false := by simpa [shuns] using shunned
      obtain ⟨⟨before, after⟩, group⟩ := reach
      cases after with
      | nil => simp [ends, Reach.ahead, Place.ahead, outside]
      | cons c after =>
          simp only [ends, Reach.ahead, Place.ahead, List.cons_append]
          split <;> rfl
  | many p =>
      have outside : p d = false := by simpa [shuns] using shunned
      simp only [ends, Reach.ahead, Place.ahead, Place.run_ahead outside, ← List.map_reverse,
        List.map_map]
      rfl
  | few p =>
      have outside : p d = false := by simpa [shuns] using shunned
      simp only [ends, Reach.ahead, Place.ahead, Place.run_ahead outside, List.map_map]
      rfl
  | seq p q p_ih q_ih =>
      obtain ⟨p_shunned, q_shunned⟩ := Bool.and_eq_true_iff.mp shunned
      rw [ends_seq, p_ih p_shunned, List.flatMap_map, ends_seq, List.map_flatMap]
      exact List.flatMap_congr fun middle _ => q_ih q_shunned middle
  | alt p q p_ih q_ih =>
      obtain ⟨p_shunned, q_shunned⟩ := Bool.and_eq_true_iff.mp shunned
      rw [ends_alt, p_ih p_shunned, q_ih q_shunned, ends_alt, List.map_append]
  | capture body ih =>
      rw [ends_capture, ends_capture, ih shunned, List.map_map, List.map_map]
      rfl
  | star body => contradiction
  | edge => contradiction
  | notAfter p => contradiction
  | first => contradiction
  | last => contradiction

end Pattern

/-! ## Repetitions -/

namespace Pattern

variable {body pattern : Pattern} {reach middle stop : Reach} {before s after : List Char}
  {group : Option (Place × Place)}

/-- Read from the first reach as often as it can be, the pattern stops at the second one. -/
def Settles (body : Pattern) (reach stop : Reach) : Prop :=
  ∀ n, reach.place.after.length ≤ n → (Reach.iterate body.ends n reach).head? = some stop

theorem Settles.star (settles : body.Settles reach stop) : (star body).Stops reach stop :=
  settles _ le_rfl

theorem Fails.settles (absent : body.Fails reach) : body.Settles reach reach := by
  intro n _
  rw [Fails] at absent
  cases n with
  | zero => rfl
  | succ n => rw [Reach.iterate, absent, List.flatMap_nil, List.nil_append, List.head?_cons]

theorem Stops.settles (first : body.Stops reach middle)
    (shorter : middle.place.after.length < reach.place.after.length)
    (onward : body.Settles middle stop) : body.Settles reach stop := by
  intro n enough
  obtain ⟨n, rfl⟩ := Nat.exists_eq_succ_of_ne_zero (show n ≠ 0 by omega)
  obtain ⟨others, ends_eq⟩ := List.head?_eq_some_iff.mp first
  obtain ⟨more, iterate_eq⟩ := List.head?_eq_some_iff.mp (onward n (by omega))
  rw [Nat.succ_eq_add_one, Reach.iterate, ends_eq, List.flatMap_cons, iterate_eq]
  rfl

/-! ## Gaps -/

theorem stops_gap_of_reads {gap : List Char} {front back : List Char}
    (reads : Pattern.gap.Reads front gap back) (solid : ∀ c ∈ after.head?, isBlank c = false)
    (before : List Char) (group : Option (Place × Place)) :
    Pattern.gap.Stops ⟨⟨before, gap ++ after⟩, group⟩ ⟨⟨gap.reverse ++ before, after⟩, group⟩ := by
  obtain ⟨-, s, rfl, ⟨c, rfl, blank⟩, blanks⟩ := reads
  exact stops_atLeastOne blank blanks solid before group

theorem blank_of_reads_gap {gap front back : List Char} (reads : Pattern.gap.Reads front gap back) :
    ∀ c ∈ gap, isBlank c = true := by
  obtain ⟨-, s, rfl, ⟨c, rfl, blank⟩, blanks⟩ := reads
  exact List.forall_mem_cons.mpr ⟨blank, blanks⟩

/-- Behind a gap stands no quote where the text holds none. -/
theorem fails_gap_quote {text : List Char} (no_quote : '"' ∉ text) (before : List Char)
    (parts : List Pattern) (group : Option (Place × Place)) :
    (all (Pattern.gap :: "\"" :: parts)).Fails ⟨⟨before, text⟩, group⟩ := by
  refine fails_seq ?_
  intro middle mem
  obtain ⟨s, text_eq, -, -⟩ := between_of_mem_ends mem
  have other : ∀ d ∈ middle.place.after.head?, d ≠ '"' := by
    rintro d head_eq rfl
    refine no_quote ?_
    change text = s ++ middle.place.after at text_eq
    rw [text_eq]
    exact List.mem_append_right s (List.mem_of_mem_head? head_eq)
  exact (fails_text_cons other _ [] _).all_cons parts

end Pattern

open Pattern

/-! ## Visibility -/

namespace Visibility

variable {before s after text : List Char}

theorem restriction_stops {front back : List Char} (reads : restriction.Reads front s back)
    (before after : List Char) (group : Option (Place × Place)) :
    restriction.Stops ⟨⟨before, s ++ after⟩, group⟩ ⟨⟨s.reverse ++ before, after⟩, group⟩ := by
  obtain ⟨blanks, -, rfl, blank, -, -, rfl, rfl, inner, -, rfl, inside, -, -, rfl, rfl, rfl⟩ :=
    reads
  have not_blank : ∀ c ∈ ('(' :: (inner ++ ')' :: after)).head?, isBlank c = false := by
    rintro c ⟨⟩
    decide
  have closes : ∀ c ∈ (')' :: after).head?, decide (c ≠ ')') = false := by
    rintro c ⟨⟩
    decide
  have found : restriction.Stops ⟨⟨before, blanks ++ '(' :: (inner ++ ')' :: after)⟩, group⟩ _ :=
    (stops_many blank not_blank before group).all_cons
      ((stops_text _ "(".toList _ group).all_cons
        ((stops_many inside closes _ group).all_cons
          ((stops_text _ ")".toList after group).all_cons (stops_all_nil _))))
  simpa using found

/-- A restriction that is read behind `pub` is passed, and so is nothing where none is read. -/
theorem maybe_restriction_stops {front back gap : List Char}
    (reads : (maybe restriction).Reads front s back) (blank : ∀ c ∈ gap, isBlank c = true)
    (next : ∀ c ∈ after.head?, isBlank c = false ∧ c ≠ '(') (before : List Char)
    (group : Option (Place × Place)) :
    (maybe restriction).Stops ⟨⟨before, s ++ (gap ++ after)⟩, group⟩
      ⟨⟨s.reverse ++ before, gap ++ after⟩, group⟩ := by
  rcases reads with reads | rfl
  · exact (restriction_stops reads before _ group).maybe
  · exact (fails_restriction blank next before group).maybe

/-- What a mark reads in front of an item is passed, and so is nothing where no mark is read; the
visibility is the same in front of every item. -/
theorem maybe_mark_stops_of_reads {front back : List Char}
    (reads : (maybe mark).Reads front s back) :
    ∃ visibility, ∀ {c : Char} (rest : List Char), isBlank c = false → c ≠ '(' → c ≠ 'p' →
      (split (s ++ c :: rest)).1 = visibility ∧
      (maybe mark).Stops ⟨⟨[], s ++ c :: rest⟩, none⟩ ⟨⟨s.reverse, c :: rest⟩, none⟩ := by
  rcases reads with marked | rfl
  · obtain ⟨-, -, rfl, rfl, restricted, -, rfl, restricted_reads, gap, -, rfl, gap_reads, rfl⟩ :=
      marked
    refine ⟨pub, fun {c} rest solid no_paren _ => ?_⟩
    have next : ∀ d ∈ (c :: rest).head?, isBlank d = false ∧ d ≠ '(' := by
      rintro d ⟨⟩
      exact ⟨solid, no_paren⟩
    have blank := blank_of_reads_gap gap_reads
    have found : mark.Stops ⟨⟨[], "pub".toList ++ (restricted ++ (gap ++ c :: rest))⟩, none⟩ _ :=
      (stops_text [] "pub".toList _ none).all_cons
        ((maybe_restriction_stops restricted_reads blank next _ none).all_cons
          ((stops_gap_of_reads gap_reads (fun d mem => (next d mem).1) _ none).all_cons
            (stops_all_nil _)))
    have text_eq : "pub".toList ++ (restricted ++ (gap ++ [])) ++ c :: rest =
        "pub".toList ++ (restricted ++ (gap ++ c :: rest)) := by simp
    rw [text_eq]
    refine ⟨by rw [split, found.match?_eq], ?_⟩
    simpa using found.maybe
  · refine ⟨priv, fun {c} rest solid no_paren other => ?_⟩
    have absent := mark_fails (unmarked_of_ne solid no_paren other rest) [] none
    have unmatched : mark.match? (c :: rest) = none := absent.matchAt?_eq
    exact ⟨by rw [List.nil_append, split, unmatched], absent.maybe⟩

end Visibility

/-! ## Functions -/

namespace Function

variable {before s after rest : List Char} {group : Option (Place × Place)}

/-- The words of a qualifier. -/
def qualifierWord : Pattern :=
  .alt (.oneOf ["const", "async", "unsafe"])
    (.seq "extern" (.maybe (.all [.gap, "\"", .many (· ≠ '"'), "\""])))

theorem qualifierWord_stops {front back : List Char} (reads : qualifierWord.Reads front s back)
    (no_quote : '"' ∉ s ++ after) (before : List Char) (group : Option (Place × Place)) :
    (∃ c tail, s = c :: tail ∧ c ∈ "caue".toList) ∧
      qualifierWord.Stops ⟨⟨before, s ++ after⟩, group⟩ ⟨⟨s.reverse ++ before, after⟩, group⟩ := by
  have other {c d : Char} (ne : d ≠ c) (tail cs : List Char) :
      (Pattern.text (c :: cs)).Fails ⟨⟨before, d :: tail⟩, group⟩ :=
    fails_text_cons (fun e mem => by rwa [← Option.mem_some.mp mem]) before cs group
  rcases reads with (rfl | rfl | rfl) | ⟨-, tail, rfl, rfl, abi_reads⟩
  · exact ⟨⟨'c', _, rfl, by decide⟩, ((stops_text before "const".toList after group).alt _).alt _⟩
  · have no_const := other (c := 'c') (d := 'a') (by decide) ("sync".toList ++ after) "onst".toList
    exact ⟨⟨'a', _, rfl, by decide⟩,
      (no_const.alt_stops ((stops_text before "async".toList after group).alt _)).alt _⟩
  · have no_const := other (c := 'c') (d := 'u') (by decide) ("nsafe".toList ++ after) "onst".toList
    have no_async := other (c := 'a') (d := 'u') (by decide) ("nsafe".toList ++ after) "sync".toList
    exact ⟨⟨'u', _, rfl, by decide⟩, (no_const.alt_stops
      (no_async.alt_stops (stops_text before "unsafe".toList after group))).alt _⟩
  · have no_const := other (c := 'c') (d := 'e') (by decide) ("xtern".toList ++ (tail ++ after))
      "onst".toList
    have no_async := other (c := 'a') (d := 'e') (by decide) ("xtern".toList ++ (tail ++ after))
      "sync".toList
    have no_unsafe := other (c := 'u') (d := 'e') (by decide) ("xtern".toList ++ (tail ++ after))
      "nsafe".toList
    obtain rfl : tail = [] := by
      refine abi_reads.resolve_left ?_
      rintro ⟨gap, _, rfl, -, _, _, rfl, rfl, -⟩
      exact no_quote (by simp)
    have text_no_quote : '"' ∉ after :=
      fun mem => no_quote (List.mem_append_right _ mem)
    have no_abi := fails_gap_quote text_no_quote ("extern".toList.reverse ++ before)
      [.many (· ≠ '"'), "\""] group
    exact ⟨⟨'e', _, rfl, by decide⟩, (no_const.alt (no_async.alt no_unsafe)).alt_stops
      ((stops_text before "extern".toList after group).seq no_abi.maybe)⟩

/-- A qualifier is passed with the blanks behind it if no quote follows. -/
theorem qualifier_stops {front back : List Char} (reads : qualifier.Reads front s back)
    (no_quote : '"' ∉ s ++ after) (solid : ∀ c ∈ after.head?, isBlank c = false)
    (before : List Char) (group : Option (Place × Place)) :
    (∃ c tail, s = c :: tail ∧ c ∈ "caue".toList) ∧
      qualifier.Stops ⟨⟨before, s ++ after⟩, group⟩ ⟨⟨s.reverse ++ before, after⟩, group⟩ := by
  obtain ⟨word, gap, rfl, word_reads, gap_reads⟩ := reads
  rw [List.append_assoc] at no_quote ⊢
  obtain ⟨⟨c, tail, rfl, first⟩, stops⟩ := qualifierWord_stops word_reads no_quote before group
  refine ⟨⟨c, tail ++ gap, rfl, first⟩, ?_⟩
  have passed := stops.seq (stops_gap_of_reads gap_reads solid _ group)
  rwa [List.reverse_append, List.append_assoc]

/-- The qualifiers in front of `fn` are all passed if no quote follows. -/
theorem qualifiers_settle {front back : List Char}
    (reads : Repeated qualifier.Reads front s back) (no_quote : '"' ∉ s ++ 'f' :: rest)
    (before : List Char) (group : Option (Place × Place)) :
    (∃ c tail, s ++ 'f' :: rest = c :: tail ∧ c ∈ "cauef".toList) ∧
      qualifier.Settles ⟨⟨before, s ++ 'f' :: rest⟩, group⟩
        ⟨⟨s.reverse ++ before, 'f' :: rest⟩, group⟩ := by
  induction reads generalizing before with
  | nil => exact ⟨⟨'f', rest, rfl, by decide⟩, (qualifier_fails rest before group).settles⟩
  | @cons front s t back nonempty first others ih =>
      rw [List.append_assoc] at no_quote ⊢
      have later_no_quote : '"' ∉ t ++ 'f' :: rest :=
        fun mem => no_quote (List.mem_append_right s mem)
      obtain ⟨⟨c, tail, later_eq, c_mem⟩, onward⟩ := ih later_no_quote (s.reverse ++ before)
      have solid : ∀ d ∈ (t ++ 'f' :: rest).head?, isBlank d = false := by
        rw [later_eq]
        rintro d ⟨⟩
        have each : ∀ d ∈ "cauef".toList, isBlank d = false := forall_mem_of_all rfl
        exact each c c_mem
      obtain ⟨⟨d, inner, rfl, d_mem⟩, stops⟩ := qualifier_stops first no_quote solid before group
      refine ⟨⟨d, inner ++ (t ++ 'f' :: rest), rfl, ?_⟩, ?_⟩
      · exact List.mem_append_left ['f'] d_mem
      · rw [List.reverse_append, List.append_assoc]
        exact stops.settles (by simp) onward

/-- A name does not begin with a blank. -/
theorem solid_of_reads_nameMark (reads : nameMark.Reads before s after) :
    ∃ c tail, s = c :: tail ∧ isBlank c = false := by
  obtain ⟨mark, _, rfl, mark_reads, _, _, rfl, ⟨c, rfl, start⟩, -⟩ := reads
  rcases mark_reads with rfl | rfl
  · exact ⟨'r', _, rfl, by decide⟩
  · exact ⟨c, _, rfl, isBlank_of_isIdentRest (isIdentRest_of_isIdentStart start)⟩

/-- What stands in front of the name in a header is passed alike in front of every name. -/
theorem exists_lead_of_isHeadOf {text : List Char} (heads : header.isHeadOf text = true) :
    ∃ lead behind visibility, text = lead ++ behind ∧
      (capture nameMark).ends ⟨⟨lead.reverse, behind⟩, none⟩ ≠ [] ∧
      ∀ {behind : List Char} {stop : Reach}, '"' ∉ lead ++ behind →
        (capture nameMark).Stops ⟨⟨lead.reverse, behind⟩, none⟩ stop →
        header.Stops ⟨⟨[], lead ++ behind⟩, none⟩ stop ∧
          (Visibility.split (lead ++ behind)).1 = visibility := by
  obtain ⟨_, after, rfl, mark, _, rfl, mark_reads, q, _, rfl, q_reads, _, _, rfl, rfl, gap, _, rfl,
    gap_reads, name, _, rfl, name_reads, rfl⟩ := (isHeadOf_iff text).mp heads
  obtain ⟨visibility, marked⟩ := Visibility.maybe_mark_stops_of_reads mark_reads
  let lead := mark ++ (q ++ ("fn".toList ++ gap))
  have text_eq : mark ++ (q ++ ("fn".toList ++ (gap ++ (name ++ [])))) ++ after =
      lead ++ (name ++ after) := by simp [lead]
  refine ⟨lead, name ++ after, visibility, text_eq, ?_, ?_⟩
  · have elsewhere : (capture nameMark).Reads lead.reverse name after :=
      name_reads.elsewhere rfl _ _
    obtain ⟨stop, mem, -⟩ := exists_mem_ends elsewhere none
    exact List.ne_nil_of_mem mem
  · intro behind stop no_quote named
    obtain ⟨s, behind_eq, -, reads⟩ := between_of_mem_ends (List.mem_of_mem_head? named)
    obtain ⟨c, tail, rfl, solid⟩ := solid_of_reads_nameMark reads
    have head_solid : ∀ d ∈ behind.head?, isBlank d = false := by
      change behind = c :: tail ++ stop.place.after at behind_eq
      rw [behind_eq]
      rintro d ⟨⟩
      exact solid
    have whole_eq : lead ++ behind = mark ++ (q ++ 'f' :: ('n' :: (gap ++ behind))) := by
      simp [lead]
    rw [whole_eq] at no_quote ⊢
    have q_no_quote : '"' ∉ q ++ 'f' :: ('n' :: (gap ++ behind)) :=
      fun mem => no_quote (List.mem_append_right mark mem)
    obtain ⟨⟨d, rest, rest_eq, d_mem⟩, settled⟩ :=
      qualifiers_settle q_reads q_no_quote mark.reverse none
    have each : ∀ d ∈ "cauef".toList, isBlank d = false ∧ d ≠ '(' ∧ d ≠ 'p' :=
      forall_mem_of_all rfl
    obtain ⟨d_solid, no_paren, no_mark⟩ := each d d_mem
    have marked_here := marked rest d_solid no_paren no_mark
    rw [← rest_eq] at marked_here
    have lead_reverse : lead.reverse =
        gap.reverse ++ ("fn".toList.reverse ++ (q.reverse ++ mark.reverse)) := by simp [lead]
    rw [lead_reverse] at named
    refine ⟨?_, marked_here.1⟩
    exact marked_here.2.all_cons (settled.star.all_cons
      ((stops_text _ "fn".toList _ none).all_cons
        ((stops_gap_of_reads gap_reads head_solid _ none).all_cons
          (named.all_cons (stops_all_nil _)))))

/-- A header is matched in front of a space as it is matched at the end of the text. -/
theorem header_append {text more : List Char} {found : Match}
    (matched : header.match? text = some found) (no_quote : '"' ∉ text ++ more)
    (parted : ∀ c ∈ more.head?, c = ' ') :
    ∃ whole, header.match? (text ++ more) = some whole ∧
      whole.captured = found.captured ∧ whole.stop.offset = found.stop.offset ∧
      (Visibility.split (text ++ more)).1 = (Visibility.split text).1 := by
  have heads : header.isHeadOf text = true := by
    rw [isHeadOf, matched]
    rfl
  obtain ⟨lead, behind, visibility, rfl, nonempty, passed⟩ := exists_lead_of_isHeadOf heads
  have text_no_quote : '"' ∉ lead ++ behind := fun mem => no_quote (List.mem_append_left _ mem)
  obtain ⟨stop, others, ends_eq⟩ := List.exists_cons_of_ne_nil nonempty
  have named : (capture nameMark).Stops ⟨⟨lead.reverse, behind⟩, none⟩ stop := by
    rw [Stops, ends_eq, List.head?_cons]
  obtain ⟨stops, split_eq⟩ := passed text_no_quote named
  obtain rfl := Option.some.inj (matched.symm.trans stops.match?_eq)
  cases more with
  | nil =>
      rw [List.append_nil]
      exact ⟨_, matched, rfl, rfl, rfl⟩
  | cons c rest =>
      obtain rfl := parted c rfl
      have named_ahead : (capture nameMark).Stops ⟨⟨lead.reverse, behind ++ ' ' :: rest⟩, none⟩
          (stop.ahead (' ' :: rest)) := by
        have shunned : (capture nameMark).shuns ' ' = true := by decide
        have ahead_eq : (capture nameMark).ends
            (Reach.ahead (' ' :: rest) ⟨⟨lead.reverse, behind⟩, none⟩) = _ :=
          ends_ahead shunned _
        rw [ends_eq, List.map_cons] at ahead_eq
        rw [Stops, ← List.head?_cons, ← ahead_eq]
        rfl
      rw [List.append_assoc] at no_quote ⊢
      obtain ⟨stops_ahead, split_ahead_eq⟩ := passed no_quote named_ahead
      refine ⟨_, stops_ahead.match?_eq, ?_, rfl, split_ahead_eq.trans split_eq.symm⟩
      obtain ⟨name, behind_eq, before_eq, -⟩ := between_of_mem_ends (List.mem_of_mem_head? named)
      obtain ⟨⟨⟨before, after⟩, group⟩, -, rfl⟩ :=
        List.mem_map.mp (List.mem_of_mem_head? named)
      dsimp only at behind_eq before_eq
      rw [behind_eq, before_eq]
      simp only [Reach.ahead, Place.ahead, Option.map_some, List.append_assoc, Match.captured_eq]

end Function
end SorobanLint
