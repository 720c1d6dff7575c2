import SorobanLint.Proofs.Blanks
import SorobanLint.Proofs.Pattern

/-!
# Where patterns stop

A pattern stops at the first of its ends.  The rules below follow a pattern through a text piece by
piece; a pattern fails where it has no ends at all.  A word occurs in a text by itself exactly if it
is one of the text's runs of word characters (`occursIn_whole`); a pattern that begins with a word
is looked for behind a text without that word (`BeginsWith.search?_append`).
-/

namespace SorobanLint

open Text

namespace Place

variable {p : Char → Bool} {before after s t chars : List Char}

theorem pass?_append (before s after : List Char) :
    pass? s ⟨before, s ++ after⟩ = some ⟨s.reverse ++ before, after⟩ := by
  induction s generalizing before with
  | nil => rfl
  | cons c s ih => simp [pass?, ih]

theorem eq_of_pass? {stop : Place} (passed : pass? chars ⟨before, after⟩ = some stop) :
    after = chars ++ stop.after ∧ stop.before = chars.reverse ++ before := by
  induction chars generalizing before after with
  | nil =>
      obtain rfl := Option.some.inj passed
      exact ⟨rfl, rfl⟩
  | cons c chars ih =>
      cases after with
      | nil => simp [pass?] at passed
      | cons d after =>
          rw [pass?] at passed
          split at passed
          next same =>
            obtain ⟨after_eq, before_eq⟩ := ih passed
            rw [same, List.cons_append, ← after_eq, before_eq]
            simp
          next => contradiction

theorem getLast?_run (inside : ∀ c ∈ s, p c = true) (outside : ∀ c ∈ after.head?, p c = false)
    (before : List Char) :
    (run p before (s ++ after)).getLast? = some ⟨s.reverse ++ before, after⟩ := by
  induction s generalizing before with
  | nil =>
      cases after with
      | nil => rfl
      | cons c after => simp [run, outside c rfl]
  | cons c s ih =>
      rw [List.forall_mem_cons] at inside
      rw [List.cons_append, run, if_pos inside.1, List.getLast?_cons, ih inside.2]
      simp

theorem eq_of_mem_run {stop : Place} (mem : stop ∈ run p before after) :
    ∃ s, after = s ++ stop.after ∧ (∀ c ∈ s, p c = true) ∧ stop.before = s.reverse ++ before := by
  induction after generalizing before with
  | nil =>
      obtain rfl := List.mem_singleton.mp mem
      exact ⟨[], rfl, List.forall_mem_nil _, rfl⟩
  | cons c after ih =>
      rw [run] at mem
      rcases List.mem_cons.mp mem with rfl | mem
      · exact ⟨[], rfl, List.forall_mem_nil _, rfl⟩
      · split at mem
        next inside =>
          obtain ⟨s, after_eq, all_inside, before_eq⟩ := ih mem
          refine ⟨c :: s, by rw [after_eq]; rfl, List.forall_mem_cons.mpr ⟨inside, all_inside⟩, ?_⟩
          rw [before_eq]
          simp
        next => contradiction

end Place

namespace Pattern

variable {p q body : Pattern} {parts : List Pattern} {set : Char → Bool}
  {reach middle stop : Reach} {place : Place} {before after s : List Char}
  {group : Option (Place × Place)}

/-- The pattern, read from the first reach, stops at the second one. -/
def Stops (pattern : Pattern) (reach stop : Reach) : Prop :=
  (pattern.ends reach).head? = some stop

/-- The pattern cannot be read from the reach. -/
def Fails (pattern : Pattern) (reach : Reach) : Prop :=
  pattern.ends reach = []

/-! ## Stopping -/

theorem Stops.seq (front : p.Stops reach middle) (back : q.Stops middle stop) :
    (seq p q).Stops reach stop := by
  obtain ⟨others, ends_eq⟩ := List.head?_eq_some_iff.mp front
  obtain ⟨more, next_eq⟩ := List.head?_eq_some_iff.mp back
  rw [Stops, ends_seq, ends_eq, List.flatMap_cons, next_eq]
  rfl

theorem Stops.alt (front : p.Stops reach stop) (q : Pattern) : (alt p q).Stops reach stop := by
  obtain ⟨others, ends_eq⟩ := List.head?_eq_some_iff.mp front
  rw [Stops, ends_alt, ends_eq]
  rfl

theorem Fails.alt_stops (front : p.Fails reach) (back : q.Stops reach stop) :
    (alt p q).Stops reach stop := by
  rw [Fails] at front
  rwa [Stops, ends_alt, front, List.nil_append]

theorem stops_text (before s after : List Char) (group : Option (Place × Place)) :
    (text s).Stops ⟨⟨before, s ++ after⟩, group⟩ ⟨⟨s.reverse ++ before, after⟩, group⟩ := by
  simp [Stops, ends, Place.pass?_append]

theorem stops_nothing (reach : Reach) : (text []).Stops reach reach := rfl

theorem Stops.maybe (found : body.Stops reach stop) : (maybe body).Stops reach stop :=
  found.alt _

theorem Fails.maybe (absent : body.Fails reach) : (maybe body).Stops reach reach :=
  absent.alt_stops (stops_nothing reach)

theorem Stops.all_cons (front : p.Stops reach middle) (back : (all parts).Stops middle stop) :
    (all (p :: parts)).Stops reach stop :=
  front.seq back

theorem stops_all_nil (reach : Reach) : (all []).Stops reach reach := rfl

theorem stops_one {c : Char} (inside : set c = true) (before after : List Char)
    (group : Option (Place × Place)) :
    (one set).Stops ⟨⟨before, c :: after⟩, group⟩ ⟨⟨c :: before, after⟩, group⟩ := by
  simp [Stops, ends, inside]

theorem stops_many (inside : ∀ c ∈ s, set c = true) (outside : ∀ c ∈ after.head?, set c = false)
    (before : List Char) (group : Option (Place × Place)) :
    (many set).Stops ⟨⟨before, s ++ after⟩, group⟩ ⟨⟨s.reverse ++ before, after⟩, group⟩ := by
  simp [Stops, ends, Place.getLast?_run inside outside]

theorem stops_atLeastOne {c : Char} (first : set c = true) (inside : ∀ c ∈ s, set c = true)
    (outside : ∀ c ∈ after.head?, set c = false) (before : List Char)
    (group : Option (Place × Place)) :
    (atLeastOne set).Stops ⟨⟨before, c :: s ++ after⟩, group⟩
      ⟨⟨(c :: s).reverse ++ before, after⟩, group⟩ := by
  rw [List.reverse_cons, List.append_assoc]
  exact (stops_one first before (s ++ after) group).seq (stops_many inside outside _ group)

theorem Fails.star (absent : body.Fails reach) : (star body).Stops reach reach := by
  rw [Fails] at absent
  simp only [Stops, ends]
  cases reach.place.after.length with
  | zero => rfl
  | succ n => simp [Reach.iterate, absent]

theorem Stops.capture (found : body.Stops reach stop) :
    (capture body).Stops reach { stop with group := some (reach.place, stop.place) } := by
  rw [Stops] at found
  rw [Stops, ends_capture, List.head?_map, found]
  rfl

theorem stops_edge (edge : reach.place.atWordEdge = true) : Pattern.edge.Stops reach reach := by
  simp [Stops, ends, edge]

theorem Stops.matchAt?_eq (found : p.Stops ⟨place, none⟩ stop) :
    p.matchAt? place = some ⟨place, stop.place, stop.group⟩ := by
  rw [Stops] at found
  rw [matchAt?, found]
  rfl

theorem Stops.match?_eq {text : List Char} (found : p.Stops ⟨.start text, none⟩ stop) :
    p.match? text = some ⟨.start text, stop.place, stop.group⟩ :=
  found.matchAt?_eq

/-! ## Failing -/

theorem Fails.matchAt?_eq (absent : p.Fails ⟨place, none⟩) : p.matchAt? place = none := by
  rw [Fails] at absent
  rw [matchAt?, absent]
  rfl

theorem Fails.seq (absent : p.Fails reach) (q : Pattern) : (seq p q).Fails reach := by
  rw [Fails] at absent
  rw [Fails, ends_seq, absent]
  rfl

theorem fails_seq (absent : ∀ middle ∈ p.ends reach, q.Fails middle) : (seq p q).Fails reach := by
  rw [Fails, ends_seq, List.flatMap_eq_nil_iff]
  exact absent

theorem Fails.all_cons (absent : p.Fails reach) (parts : List Pattern) :
    (all (p :: parts)).Fails reach :=
  absent.seq _

theorem Fails.alt (front : p.Fails reach) (back : q.Fails reach) : (alt p q).Fails reach := by
  rw [Fails] at front back
  rw [Fails, ends_alt, front, back]
  rfl

/-- Behind an optional pattern that fails, everything depends on what follows. -/
theorem Fails.maybe_all (absent : body.Fails reach) (onward : (all parts).Fails reach) :
    (all (Pattern.maybe body :: parts)).Fails reach := by
  refine fails_seq ?_
  intro middle mem
  rw [Fails] at absent
  rw [Pattern.maybe, ends_alt, absent, List.nil_append] at mem
  obtain rfl := List.mem_singleton.mp mem
  exact onward

theorem fails_text_cons {c : Char} (other : ∀ d ∈ after.head?, d ≠ c) (before cs : List Char)
    (group : Option (Place × Place)) : (text (c :: cs)).Fails ⟨⟨before, after⟩, group⟩ := by
  cases after with
  | nil => rfl
  | cons d after =>
      have ne : c ≠ d := fun same => other d rfl same.symm
      simp [Fails, ends, Place.pass?, ne]

theorem fails_one (outside : ∀ c ∈ after.head?, set c = false) (before : List Char)
    (group : Option (Place × Place)) : (one set).Fails ⟨⟨before, after⟩, group⟩ := by
  cases after with
  | nil => rfl
  | cons c after => simp [Fails, ends, outside c rfl]

theorem eq_of_mem_ends_text {chars : List Char} (mem : stop ∈ (text chars).ends reach) :
    reach.place.after = chars ++ stop.place.after ∧
      stop.place.before = chars.reverse ++ reach.place.before := by
  simp only [ends] at mem
  split at mem
  next place passed =>
    obtain rfl := List.mem_singleton.mp mem
    exact Place.eq_of_pass? passed
  next => contradiction

theorem eq_of_mem_ends_many (mem : stop ∈ (many set).ends reach) :
    ∃ s, reach.place.after = s ++ stop.place.after ∧ ∀ c ∈ s, set c = true := by
  rw [ends, List.mem_map] at mem
  obtain ⟨place, mem, rfl⟩ := mem
  obtain ⟨s, after_eq, inside, -⟩ := Place.eq_of_mem_run (List.mem_reverse.mp mem)
  exact ⟨s, after_eq, inside⟩

/-! ## Searches -/

theorem matchAt?_isSome : (p.matchAt? place).isSome = ((p.ends ⟨place, none⟩).head?).isSome := by
  rw [matchAt?, Option.isSome_map]

theorem searchFrom?_eq_none (absent : ∀ s t, after = s ++ t →
    p.matchAt? ⟨s.reverse ++ before, t⟩ = none) : p.searchFrom? before after = none := by
  induction after generalizing before with
  | nil => exact absent [] [] rfl
  | cons c after ih =>
      have here : p.matchAt? ⟨before, c :: after⟩ = none := absent [] (c :: after) rfl
      rw [searchFrom?, here]
      refine ih ?_
      intro s t after_eq
      have there := absent (c :: s) t (by rw [after_eq]; rfl)
      rwa [List.reverse_cons, List.append_assoc] at there

/-- A search passes a text in which no match begins. -/
theorem searchFrom?_append {front rest : List Char} (absent : ∀ s t, front = s ++ t → t ≠ [] →
    p.matchAt? ⟨s.reverse ++ before, t ++ rest⟩ = none) :
    p.searchFrom? before (front ++ rest) = p.searchFrom? (front.reverse ++ before) rest := by
  induction front generalizing before with
  | nil => rfl
  | cons c front ih =>
      have here : p.matchAt? ⟨before, c :: (front ++ rest)⟩ = none :=
        absent [] (c :: front) rfl (List.cons_ne_nil c front)
      rw [List.cons_append, searchFrom?, here, List.reverse_cons, List.append_assoc]
      refine ih ?_
      intro s t front_eq nonempty
      have there := absent (c :: s) t (by rw [front_eq]; rfl) nonempty
      rwa [List.reverse_cons, List.append_assoc] at there

theorem searchFrom?_of_matchAt? {found : Match} (here : p.matchAt? ⟨before, after⟩ = some found) :
    p.searchFrom? before after = some found := by
  cases after with
  | nil => exact here
  | cons c after => rw [searchFrom?, here]

/-- A search finds a match that begins no later than any other one. -/
theorem exists_searchFrom? {front rest : List Char}
    (matched : (p.matchAt? ⟨front.reverse ++ before, rest⟩).isSome = true) :
    ∃ found, p.searchFrom? before (front ++ rest) = some found ∧
      found.start.offset ≤ (front.reverse ++ before).length := by
  induction front generalizing before with
  | nil =>
      obtain ⟨found, here⟩ := Option.isSome_iff_exists.mp matched
      exact ⟨found, searchFrom?_of_matchAt? here,
        by rw [start_of_matchAt? here]; exact Nat.le_refl _⟩
  | cons c front ih =>
      rw [List.cons_append, searchFrom?]
      split
      next found here =>
        refine ⟨found, rfl, ?_⟩
        rw [start_of_matchAt? here, Place.offset, List.length_append]
        exact Nat.le_add_left _ _
      next =>
        rw [List.reverse_cons, List.append_assoc] at matched ⊢
        exact ih matched

theorem textBefore_eq (absent : p.occursIn s = false) : p.textBefore s = s := by
  rw [occursIn, Option.isSome_eq_false_iff, Option.isNone_iff_eq_none] at absent
  rw [textBefore, absent]

/-! ## Whole words -/

section Whole

variable {word text : List Char}

theorem pieces_isBreak_cons {c : Char} (inside : isWord c = true) (s : List Char) :
    pieces isBreak (c :: s) = consFirst c (pieces isBreak s) := by
  simp [pieces, isBreak, inside]

theorem pieces_isBreak_cons_break {c : Char} (outside : isWord c = false) (s : List Char) :
    pieces isBreak (c :: s) = [] :: pieces isBreak s := by
  simp [pieces, isBreak, outside]

/-- The first piece of a text is the word at its beginning. -/
theorem pieces_isBreak_eq (s : List Char) :
    ∃ later, pieces isBreak s = s.takeWhile isWord :: later := by
  induction s with
  | nil => exact ⟨[], rfl⟩
  | cons c s ih =>
      obtain ⟨later, pieces_eq⟩ := ih
      cases inside : isWord c with
      | true => exact ⟨later, by simp [pieces_isBreak_cons inside, pieces_eq, consFirst, inside]⟩
      | false => exact ⟨pieces isBreak s, by simp [pieces_isBreak_cons_break inside, inside]⟩

theorem eq_of_mem_ends_edge (mem : stop ∈ Pattern.edge.ends reach) :
    stop = reach ∧ reach.place.atWordEdge = true := by
  simp only [ends] at mem
  split at mem
  next edge => exact ⟨List.mem_singleton.mp mem, edge⟩
  next => contradiction

theorem takeWhile_isWord_append (inside : ∀ c ∈ word, isWord c = true)
    (outside : after.head?.any isWord = false) : (word ++ after).takeWhile isWord = word := by
  rw [List.takeWhile_append_of_pos inside, List.append_right_eq_self]
  cases after with
  | nil => rfl
  | cons c after => simpa using outside

/-- At a place that is not inside a word, exactly the word that begins there matches. -/
theorem matchAt?_whole (inside : ∀ c ∈ word, isWord c = true) (nonempty : word ≠ [])
    (before text : List Char) :
    ((whole word).matchAt? ⟨before, text⟩).isSome = true ↔
      before.head?.any isWord = false ∧ text.takeWhile isWord = word := by
  have head_word (after : List Char) : (word ++ after).head?.any isWord = true := by
    obtain ⟨c, rest, rfl⟩ := List.exists_cons_of_ne_nil nonempty
    exact inside c List.mem_cons_self
  have last_word (before : List Char) : (word.reverse ++ before).head?.any isWord = true := by
    obtain ⟨c, rest, reverse_eq⟩ :=
      List.exists_cons_of_ne_nil (List.reverse_ne_nil_iff.mpr nonempty)
    rw [reverse_eq]
    exact inside c (List.mem_reverse.mp (reverse_eq ▸ List.mem_cons_self))
  rw [matchAt?_isSome, List.isSome_head?]
  constructor
  · intro found
    obtain ⟨stop, mem⟩ := List.exists_mem_of_ne_nil _ (by simpa using found)
    obtain ⟨first, first_mem, mem⟩ := List.mem_flatMap.mp mem
    obtain ⟨second, second_mem, mem⟩ := List.mem_flatMap.mp mem
    obtain ⟨third, third_mem, -⟩ := List.mem_flatMap.mp mem
    obtain ⟨rfl, front_edge⟩ := eq_of_mem_ends_edge first_mem
    obtain ⟨text_eq, before_eq⟩ := eq_of_mem_ends_text second_mem
    obtain ⟨-, back_edge⟩ := eq_of_mem_ends_edge third_mem
    dsimp only at text_eq before_eq
    rw [Place.atWordEdge, text_eq, head_word] at front_edge
    rw [Place.atWordEdge, before_eq, last_word] at back_edge
    refine ⟨by simpa using front_edge, ?_⟩
    rw [text_eq]
    exact takeWhile_isWord_append inside (by simpa using back_edge)
  · rintro ⟨outside, word_eq⟩
    have text_eq : text = word ++ text.dropWhile isWord := by
      rw [← word_eq, List.takeWhile_append_dropWhile]
    have behind : (text.dropWhile isWord).head?.any isWord = false := by
      have stopped := List.head?_dropWhile_not isWord text
      cases behind_eq : text.dropWhile isWord with
      | nil => rfl
      | cons c rest =>
          rw [behind_eq] at stopped
          exact stopped
    generalize text.dropWhile isWord = after at text_eq behind
    subst text_eq
    have front_edge : Place.atWordEdge ⟨before, word ++ after⟩ = true := by
      rw [Place.atWordEdge, outside, head_word]
      rfl
    have back_edge : Place.atWordEdge ⟨word.reverse ++ before, after⟩ = true := by
      rw [Place.atWordEdge, last_word, behind]
      rfl
    have found : (whole word).Stops ⟨⟨before, word ++ after⟩, none⟩
        ⟨⟨word.reverse ++ before, after⟩, none⟩ :=
      (stops_edge front_edge).all_cons ((stops_text before word after none).all_cons
        ((stops_edge back_edge).all_cons (stops_all_nil _)))
    rw [Stops, List.head?_eq_some_iff] at found
    obtain ⟨others, ends_eq⟩ := found
    simp [ends_eq]

theorem searchFrom?_whole (inside : ∀ c ∈ word, isWord c = true) (nonempty : word ≠ [])
    (before text : List Char) :
    ((whole word).searchFrom? before text).isSome = true ↔
      word ∈ if before.head?.any isWord then (pieces isBreak text).tail
        else pieces isBreak text := by
  induction text generalizing before with
  | nil =>
      have absent : [].takeWhile isWord ≠ word := nonempty.symm
      rw [searchFrom?, matchAt?_whole inside nonempty]
      simp [pieces, nonempty]
  | cons c text ih =>
      rw [isSome_searchFrom?_cons, Bool.or_eq_true, ih, matchAt?_whole inside nonempty,
        List.head?_cons, Option.any_some]
      cases first : isWord c with
      | false =>
          rw [pieces_isBreak_cons_break first, List.takeWhile_cons_of_neg (by simp [first])]
          cases before.head?.any isWord <;> simp [nonempty, nonempty.symm]
      | true =>
          obtain ⟨later, pieces_eq⟩ := pieces_isBreak_eq text
          rw [pieces_isBreak_cons first, pieces_eq, List.takeWhile_cons_of_pos first]
          cases before.head?.any isWord <;> simp [consFirst, eq_comm]

/-- A word occurs in a text by itself if it is one of the text's words. -/
theorem occursIn_whole (inside : ∀ c ∈ word, isWord c = true) (nonempty : word ≠ [])
    (text : List Char) :
    (whole word).occursIn text = true ↔ word ∈ runs isBreak text := by
  rw [occursIn, search?, searchFrom?_whole inside nonempty, runs, List.mem_filter]
  simp [nonempty]

theorem outside_of_getLast? (edge : ∀ c ∈ s.getLast?, isWord c = false) :
    s.reverse.head?.any isWord = false := by
  rw [List.head?_reverse]
  cases last : s.getLast? with
  | none => rfl
  | some c => exact edge c last

/-- Each match of the pattern begins with the word, which stands there by itself. -/
def BeginsWith (p : Pattern) (word : List Char) : Prop :=
  ∀ before text, (p.matchAt? ⟨before, text⟩).isSome = true →
    before.head?.any isWord = false ∧ text.takeWhile isWord = word

theorem beginsWith_whole (inside : ∀ c ∈ word, isWord c = true) (nonempty : word ≠ []) :
    (whole word).BeginsWith word :=
  fun before text => (matchAt?_whole inside nonempty before text).mp

theorem mem_runs_append (inside : ∀ c ∈ word, isWord c = true) (nonempty : word ≠ [])
    (outside : s.reverse.head?.any isWord = false) (here : t.takeWhile isWord = word) :
    word ∈ runs isBreak (s ++ t) := by
  have matched : ((whole word).matchAt? ⟨s.reverse ++ [], t⟩).isSome = true := by
    rw [List.append_nil]
    exact (matchAt?_whole inside nonempty _ _).mpr ⟨outside, here⟩
  obtain ⟨found, searched, -⟩ := exists_searchFrom? matched
  rw [← occursIn_whole inside nonempty, occursIn, search?, searched]
  rfl

/-- A search for what begins with a word passes a text without that word, unless it goes on in a
word at the end of it. -/
theorem BeginsWith.search?_append (begins : p.BeginsWith word)
    (inside : ∀ c ∈ word, isWord c = true) (nonempty : word ≠ [])
    (absent : word ∉ runs isBreak s) (edge : ∀ c ∈ s.getLast?, isWord c = false)
    (rest : List Char) : p.search? (s ++ rest) = p.searchFrom? s.reverse rest := by
  rw [search?, searchFrom?_append, List.append_nil]
  rintro front t rfl some_text
  refine Option.not_isSome_iff_eq_none.mp fun matched => absent ?_
  obtain ⟨outside, here⟩ := begins _ _ matched
  rw [List.append_nil] at outside
  refine mem_runs_append inside nonempty outside ?_
  -- the text ends with a break, so the word that begins in it ends in it
  obtain ⟨behind, c, rfl⟩ := (List.eq_nil_or_concat' t).resolve_left some_text
  have broken : isWord c = false := by
    refine edge c ?_
    rw [← List.append_assoc, List.getLast?_concat]
    rfl
  rw [List.append_assoc, List.singleton_append, takeWhile_append_cons broken] at here
  rwa [takeWhile_append_cons broken]

theorem BeginsWith.search?_eq_none (begins : p.BeginsWith word)
    (inside : ∀ c ∈ word, isWord c = true) (nonempty : word ≠ [])
    (absent : word ∉ runs isBreak s) : p.search? s = none := by
  refine searchFrom?_eq_none ?_
  rintro front t rfl
  refine Option.not_isSome_iff_eq_none.mp fun matched => absent ?_
  obtain ⟨outside, here⟩ := begins _ _ matched
  rw [List.append_nil] at outside
  exact mem_runs_append inside nonempty outside here

/-- The text in front of a word is what it stands behind, if that holds no such word. -/
theorem textBefore_whole (inside : ∀ c ∈ word, isWord c = true) (nonempty : word ≠ [])
    (absent : word ∉ runs isBreak s) (edge : ∀ c ∈ s.getLast?, isWord c = false)
    (outside : t.head?.any isWord = false) :
    (whole word).textBefore (s ++ (word ++ t)) = s := by
  have matched : ((whole word).matchAt? ⟨s.reverse, word ++ t⟩).isSome = true :=
    (matchAt?_whole inside nonempty _ _).mpr
      ⟨outside_of_getLast? edge, takeWhile_isWord_append inside outside⟩
  obtain ⟨found, here⟩ := Option.isSome_iff_exists.mp matched
  rw [textBefore, (beginsWith_whole inside nonempty).search?_append inside nonempty absent edge,
    searchFrom?_of_matchAt? here]
  dsimp only
  rw [start_of_matchAt? here, Place.textBefore, List.reverse_reverse]

end Whole

end Pattern
end SorobanLint
