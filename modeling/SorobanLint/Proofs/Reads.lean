import SorobanLint.Proofs.Matching

/-!
# What patterns read

A pattern reads a stretch of a text between what stands before and what stands behind it, whatever
the matcher prefers (`Pattern.Reads`).  The matcher stops exactly where such a stretch ends
(`between_of_mem_ends`, `exists_mem_ends`), so a pattern begins a text, or occurs in it, if it reads
some stretch there.  What a pattern without conditions on its surroundings reads in one place it
reads in every other (`Reads.elsewhere`).
-/

namespace SorobanLint

open Text

namespace Pattern

/-- Stretches that are read one behind the other, none of them empty. -/
inductive Repeated (reads : List Char → List Char → List Char → Prop) :
    List Char → List Char → List Char → Prop where
  | nil {before after : List Char} : Repeated reads before [] after
  | cons {before s t after : List Char} (nonempty : s ≠ []) (first : reads before s (t ++ after))
      (others : Repeated reads (s.reverse ++ before) t after) :
      Repeated reads before (s ++ t) after

/-- The pattern can read `s` behind `before`, which holds its nearest character first, and in front
of `after`. -/
def Reads : Pattern → List Char → List Char → List Char → Prop
  | .text chars, _, s, _ => s = chars
  | .one p, _, s, _ => ∃ c, s = [c] ∧ p c = true
  | .many p, _, s, _ => ∀ c ∈ s, p c = true
  | .few p, _, s, _ => ∀ c ∈ s, p c = true
  | .seq p q, before, s, after =>
    ∃ t u, s = t ++ u ∧ Reads p before t (u ++ after) ∧ Reads q (t.reverse ++ before) u after
  | .alt p q, before, s, after => Reads p before s after ∨ Reads q before s after
  | .star body, before, s, after => Repeated (Reads body) before s after
  | .edge, before, s, after => s = [] ∧ Place.atWordEdge ⟨before, after⟩ = true
  | .notAfter p, before, s, _ => s = [] ∧ before.head?.any p = false
  | .first, before, s, _ => s = [] ∧ before = []
  | .last, _, s, after => s = [] ∧ after = []
  | .capture body, before, s, after => Reads body before s after

variable {p q pattern : Pattern} {parts : List Pattern} {before s t after : List Char}
  {reach stop : Reach}

/-! ## What the matcher finds -/

/-- The stretch between two reaches is read. -/
def Between (reads : List Char → List Char → List Char → Prop) (reach stop : Reach) : Prop :=
  ∃ s, reach.place.after = s ++ stop.place.after ∧
    stop.place.before = s.reverse ++ reach.place.before ∧
    reads reach.place.before s stop.place.after

theorem between_iterate {reads : List Char → List Char → List Char → Prop}
    {step : Reach → List Reach}
    (sound : ∀ reach, ∀ stop ∈ step reach, Between reads reach stop) {n : Nat}
    (mem : stop ∈ Reach.iterate step n reach) : Between (Repeated reads) reach stop := by
  induction n generalizing reach with
  | zero =>
      obtain rfl := List.mem_singleton.mp mem
      exact ⟨[], rfl, rfl, .nil⟩
  | succ n ih =>
      rw [Reach.iterate, List.mem_append, List.mem_flatMap, List.mem_singleton] at mem
      rcases mem with ⟨next, next_mem, mem⟩ | rfl
      · obtain ⟨s, s_eq, s_before, first⟩ := sound reach next next_mem
        obtain ⟨t, t_eq, t_before, others⟩ := ih mem
        refine ⟨s ++ t, by rw [s_eq, t_eq, List.append_assoc], ?_, ?_⟩
        · rw [t_before, s_before, List.reverse_append, List.append_assoc]
        · rw [t_eq] at first
          rw [s_before] at others
          cases s with
          | nil => exact others
          | cons c s => exact .cons (List.cons_ne_nil c s) first others
      · exact ⟨[], rfl, rfl, .nil⟩

/-- Wherever a pattern stops, it has read what stands between. -/
theorem between_of_mem_ends (mem : stop ∈ pattern.ends reach) :
    Between pattern.Reads reach stop := by
  induction pattern generalizing reach stop with
  | text chars =>
      obtain ⟨after_eq, before_eq⟩ := eq_of_mem_ends_text mem
      exact ⟨chars, after_eq, before_eq, rfl⟩
  | one p =>
      obtain ⟨⟨before, after⟩, group⟩ := reach
      cases after with
      | nil => contradiction
      | cons c after =>
          simp only [ends] at mem
          split at mem
          next inside =>
            obtain rfl := List.mem_singleton.mp mem
            exact ⟨[c], rfl, rfl, c, rfl, inside⟩
          next => contradiction
  | many p =>
      rw [ends, List.mem_map] at mem
      obtain ⟨place, mem, rfl⟩ := mem
      obtain ⟨s, after_eq, inside, before_eq⟩ := Place.eq_of_mem_run (List.mem_reverse.mp mem)
      exact ⟨s, after_eq, before_eq, inside⟩
  | few p =>
      rw [ends, List.mem_map] at mem
      obtain ⟨place, mem, rfl⟩ := mem
      obtain ⟨s, after_eq, inside, before_eq⟩ := Place.eq_of_mem_run mem
      exact ⟨s, after_eq, before_eq, inside⟩
  | seq p q p_ih q_ih =>
      rw [ends_seq, List.mem_flatMap] at mem
      obtain ⟨middle, middle_mem, mem⟩ := mem
      obtain ⟨s, s_eq, s_before, first⟩ := p_ih middle_mem
      obtain ⟨t, t_eq, t_before, second⟩ := q_ih mem
      rw [t_eq] at first
      rw [s_before] at second
      refine ⟨s ++ t, by rw [s_eq, t_eq, List.append_assoc], ?_, s, t, rfl, first, second⟩
      rw [t_before, s_before, List.reverse_append, List.append_assoc]
  | alt p q p_ih q_ih =>
      rw [ends_alt, List.mem_append] at mem
      rcases mem with mem | mem
      · obtain ⟨s, after_eq, before_eq, reads⟩ := p_ih mem
        exact ⟨s, after_eq, before_eq, .inl reads⟩
      · obtain ⟨s, after_eq, before_eq, reads⟩ := q_ih mem
        exact ⟨s, after_eq, before_eq, .inr reads⟩
  | star body ih => exact between_iterate (fun _ _ mem => ih mem) mem
  | edge =>
      obtain ⟨rfl, edge⟩ := eq_of_mem_ends_edge mem
      exact ⟨[], rfl, rfl, rfl, edge⟩
  | notAfter p =>
      simp only [ends] at mem
      split at mem
      · contradiction
      next outside =>
        obtain rfl := List.mem_singleton.mp mem
        exact ⟨[], rfl, rfl, rfl, by simpa using outside⟩
  | first =>
      simp only [ends] at mem
      split at mem
      next first =>
        obtain rfl := List.mem_singleton.mp mem
        exact ⟨[], rfl, rfl, rfl, List.isEmpty_iff.mp first⟩
      · contradiction
  | last =>
      simp only [ends] at mem
      split at mem
      next last =>
        obtain rfl := List.mem_singleton.mp mem
        exact ⟨[], rfl, rfl, rfl, List.isEmpty_iff.mp last⟩
      · contradiction
  | capture body ih =>
      rw [ends_capture, List.mem_map] at mem
      obtain ⟨inner, mem, rfl⟩ := mem
      have inner_between : Between body.Reads reach inner := ih mem
      exact inner_between

/-! ## What the matcher does not miss -/

theorem mem_run {set : Char → Bool} (inside : ∀ c ∈ s, set c = true) (before after : List Char) :
    ⟨s.reverse ++ before, after⟩ ∈ Place.run set before (s ++ after) := by
  induction s generalizing before with
  | nil => cases after <;> exact List.mem_cons_self
  | cons c s ih =>
      rw [List.forall_mem_cons] at inside
      rw [List.cons_append, Place.run, if_pos inside.1, List.reverse_cons, List.append_assoc]
      exact List.mem_cons_of_mem _ (ih inside.2 (c :: before))

theorem exists_mem_iterate {reads : List Char → List Char → List Char → Prop}
    {step : Reach → List Reach}
    (complete : ∀ {before s after} group, reads before s after →
      ∃ stop ∈ step ⟨⟨before, s ++ after⟩, group⟩, stop.place = ⟨s.reverse ++ before, after⟩)
    (repeated : Repeated reads before s after) (group : Option (Place × Place)) {n : Nat}
    (enough : s.length ≤ n) :
    ∃ stop ∈ Reach.iterate step n ⟨⟨before, s ++ after⟩, group⟩,
      stop.place = ⟨s.reverse ++ before, after⟩ := by
  induction repeated generalizing group n with
  | @nil before after =>
      refine ⟨⟨⟨before, after⟩, group⟩, ?_, rfl⟩
      cases n with
      | zero => exact List.mem_singleton_self _
      | succ n => exact List.mem_append_right _ (List.mem_singleton_self _)
  | @cons before s t after nonempty first others ih =>
      have s_length := List.length_pos_of_ne_nil nonempty
      rw [List.length_append] at enough
      obtain ⟨n, rfl⟩ := Nat.exists_eq_add_of_le (show 1 ≤ n by omega)
      obtain ⟨⟨middle, captured⟩, middle_mem, rfl⟩ := complete group first
      obtain ⟨stop, mem, stop_eq⟩ := ih captured (n := n) (by omega)
      refine ⟨stop, ?_, ?_⟩
      · rw [Nat.add_comm, Reach.iterate, List.append_assoc]
        exact List.mem_append_left _ (List.mem_flatMap.mpr ⟨_, middle_mem, mem⟩)
      · rw [stop_eq, List.reverse_append, List.append_assoc]

/-- A pattern stops behind every stretch that it can read. -/
theorem exists_mem_ends (reads : pattern.Reads before s after) (group : Option (Place × Place)) :
    ∃ stop ∈ pattern.ends ⟨⟨before, s ++ after⟩, group⟩,
      stop.place = ⟨s.reverse ++ before, after⟩ := by
  induction pattern generalizing before s after group with
  | text chars =>
      obtain rfl := reads
      have passed := Place.pass?_append before s after
      exact ⟨⟨⟨s.reverse ++ before, after⟩, group⟩, by simp [ends, passed], rfl⟩
  | one p =>
      obtain ⟨c, rfl, inside⟩ := reads
      exact ⟨⟨⟨c :: before, after⟩, group⟩, by simp [ends, inside], rfl⟩
  | many p =>
      have mem := List.mem_reverse.mpr (mem_run reads before after)
      exact ⟨_, List.mem_map.mpr ⟨_, mem, rfl⟩, rfl⟩
  | few p => exact ⟨_, List.mem_map.mpr ⟨_, mem_run reads before after, rfl⟩, rfl⟩
  | seq p q p_ih q_ih =>
      obtain ⟨t, u, rfl, first, second⟩ := reads
      obtain ⟨⟨middle, captured⟩, middle_mem, rfl⟩ := p_ih first group
      obtain ⟨stop, mem, stop_eq⟩ := q_ih second captured
      refine ⟨stop, ?_, ?_⟩
      · rw [ends_seq, List.append_assoc]
        exact List.mem_flatMap.mpr ⟨_, middle_mem, mem⟩
      · rw [stop_eq, List.reverse_append, List.append_assoc]
  | alt p q p_ih q_ih =>
      rcases reads with reads | reads
      · obtain ⟨stop, mem, stop_eq⟩ := p_ih reads group
        exact ⟨stop, List.mem_append_left _ mem, stop_eq⟩
      · obtain ⟨stop, mem, stop_eq⟩ := q_ih reads group
        exact ⟨stop, List.mem_append_right _ mem, stop_eq⟩
  | star body ih =>
      refine exists_mem_iterate (fun group reads => ih reads group) reads group ?_
      rw [List.length_append]
      exact Nat.le_add_right _ _
  | edge =>
      obtain ⟨rfl, edge⟩ := reads
      exact ⟨⟨⟨before, after⟩, group⟩, by simp [ends, edge], rfl⟩
  | notAfter p =>
      obtain ⟨rfl, outside⟩ := reads
      exact ⟨⟨⟨before, after⟩, group⟩, by simp [ends, outside], rfl⟩
  | first =>
      obtain ⟨rfl, rfl⟩ := reads
      exact ⟨⟨⟨[], after⟩, group⟩, by simp [ends], rfl⟩
  | last =>
      obtain ⟨rfl, rfl⟩ := reads
      exact ⟨⟨⟨before, []⟩, group⟩, by simp [ends], rfl⟩
  | capture body ih =>
      obtain ⟨stop, mem, stop_eq⟩ := ih reads group
      exact ⟨_, List.mem_map.mpr ⟨stop, mem, rfl⟩, stop_eq⟩

/-- A pattern matches at a place if it reads some stretch there. -/
theorem isSome_matchAt?_iff (before text : List Char) :
    (pattern.matchAt? ⟨before, text⟩).isSome = true ↔
      ∃ s after, text = s ++ after ∧ pattern.Reads before s after := by
  rw [matchAt?_isSome, List.isSome_head?]
  constructor
  · intro found
    obtain ⟨stop, mem⟩ := List.exists_mem_of_ne_nil _ found
    obtain ⟨s, text_eq, -, reads⟩ := between_of_mem_ends mem
    exact ⟨s, stop.place.after, text_eq, reads⟩
  · rintro ⟨s, after, rfl, reads⟩
    obtain ⟨stop, mem, -⟩ := exists_mem_ends reads none
    exact List.ne_nil_of_mem mem

/-- A match is a stretch that the pattern reads. -/
theorem exists_of_matchAt? {place : Place} {found : Match}
    (matched : pattern.matchAt? place = some found) :
    found.start = place ∧ ∃ s, place.after = s ++ found.stop.after ∧
      found.stop.before = s.reverse ++ place.before ∧
      pattern.Reads place.before s found.stop.after := by
  obtain ⟨stop, first, rfl⟩ := Option.map_eq_some_iff.mp matched
  exact ⟨rfl, between_of_mem_ends (List.mem_of_mem_head? first)⟩

/-- A match at the beginning of a text ends in it. -/
theorem offset_le_of_match? {text : List Char} {found : Match}
    (matched : pattern.match? text = some found) : found.stop.offset ≤ text.length := by
  obtain ⟨reach, first, rfl⟩ := Option.map_eq_some_iff.mp matched
  obtain ⟨s, after_eq, before_eq, -⟩ := between_of_mem_ends (List.mem_of_mem_head? first)
  change text = s ++ reach.place.after at after_eq
  change reach.place.before = s.reverse ++ [] at before_eq
  rw [Place.offset, before_eq, after_eq, List.append_nil, List.length_reverse, List.length_append]
  exact Nat.le_add_right ..

theorem isHeadOf_iff (text : List Char) :
    pattern.isHeadOf text = true ↔ ∃ s after, text = s ++ after ∧ pattern.Reads [] s after :=
  isSome_matchAt?_iff [] text

/-- A pattern occurs in a text if it reads some stretch of it. -/
theorem isSome_searchFrom?_iff (before text : List Char) :
    (pattern.searchFrom? before text).isSome = true ↔
      ∃ front s after, text = front ++ (s ++ after) ∧
        pattern.Reads (front.reverse ++ before) s after := by
  induction text generalizing before with
  | nil =>
      rw [searchFrom?, isSome_matchAt?_iff]
      constructor
      · rintro ⟨s, after, text_eq, reads⟩
        exact ⟨[], s, after, text_eq, reads⟩
      · rintro ⟨front, s, after, text_eq, reads⟩
        obtain ⟨rfl, nothing⟩ := List.append_eq_nil_iff.mp text_eq.symm
        exact ⟨s, after, nothing.symm, reads⟩
  | cons c text ih =>
      rw [isSome_searchFrom?_cons, Bool.or_eq_true, isSome_matchAt?_iff, ih]
      constructor
      · rintro (⟨s, after, text_eq, reads⟩ | ⟨front, s, after, rfl, reads⟩)
        · exact ⟨[], s, after, text_eq, reads⟩
        · refine ⟨c :: front, s, after, rfl, ?_⟩
          rwa [List.reverse_cons, List.append_assoc]
      · rintro ⟨front, s, after, text_eq, reads⟩
        cases front with
        | nil => exact .inl ⟨s, after, text_eq, reads⟩
        | cons d front =>
            obtain ⟨rfl, rfl⟩ := List.cons.inj text_eq
            rw [List.reverse_cons, List.append_assoc] at reads
            exact .inr ⟨front, s, after, rfl, reads⟩

theorem occursIn_iff (text : List Char) :
    pattern.occursIn text = true ↔
      ∃ front s after, text = front ++ (s ++ after) ∧ pattern.Reads front.reverse s after := by
  rw [occursIn, search?, isSome_searchFrom?_iff]
  simp only [List.append_nil]

theorem Reads.all_cons (first : p.Reads before s (t ++ after))
    (others : (all parts).Reads (s.reverse ++ before) t after) :
    (all (p :: parts)).Reads before (s ++ t) after :=
  ⟨s, t, rfl, first, others⟩

theorem reads_atLeastOne_iff {set : Char → Bool} :
    (atLeastOne set).Reads before s after ↔ s ≠ [] ∧ ∀ c ∈ s, set c = true := by
  constructor
  · rintro ⟨-, rest, rfl, ⟨c, rfl, first⟩, inside⟩
    exact ⟨List.cons_ne_nil c rest, List.forall_mem_cons.mpr ⟨first, inside⟩⟩
  · rintro ⟨nonempty, inside⟩
    obtain ⟨c, rest, rfl⟩ := List.exists_cons_of_ne_nil nonempty
    rw [List.forall_mem_cons] at inside
    exact ⟨[c], rest, rfl, ⟨c, rfl, inside.1⟩, inside.2⟩

theorem reads_edge {c : Char} (word : isWord c = true) (before : List Char)
    (outside : after.head?.any isWord = false) : Pattern.edge.Reads (c :: before) [] after := by
  refine ⟨rfl, ?_⟩
  rw [Place.atWordEdge, outside, List.head?_cons, Option.any_some, word]
  rfl

/-! ## What is recorded -/

/-- Whether a part of the pattern records what it reads. -/
def captures : Pattern → Bool
  | .seq p q => p.captures || q.captures
  | .alt p q => p.captures || q.captures
  | .star body => body.captures
  | .capture _ => true
  | _ => false

/-- Whether the pattern records a text however it is read. -/
def records : Pattern → Bool
  | .seq p q => p.records || q.records
  | .alt p q => p.records && q.records
  | .capture _ => true
  | _ => false

theorem group_of_mem_iterate {good : Option (Place × Place) → Prop} {step : Reach → List Reach}
    (kept : ∀ {reach stop}, good reach.group → stop ∈ step reach → good stop.group) {n : Nat}
    (holds : good reach.group) (mem : stop ∈ Reach.iterate step n reach) : good stop.group := by
  induction n generalizing reach with
  | zero =>
      obtain rfl := List.mem_singleton.mp mem
      exact holds
  | succ n ih =>
      rw [Reach.iterate, List.mem_append, List.mem_flatMap, List.mem_singleton] at mem
      rcases mem with ⟨next, next_mem, mem⟩ | rfl
      · exact ih (kept holds next_mem) mem
      · exact holds

/-- What holds of the recorded text holds behind a pattern if it holds of all that the pattern may
record. -/
theorem good_of_mem_ends (good : Option (Place × Place) → Prop)
    (recorded : pattern.captures = true → ∀ bounds, good (some bounds))
    (holds : good reach.group) (mem : stop ∈ pattern.ends reach) : good stop.group := by
  induction pattern generalizing reach stop with
  | seq p q p_ih q_ih =>
      rw [ends_seq, List.mem_flatMap] at mem
      obtain ⟨middle, middle_mem, mem⟩ := mem
      have holds_middle := p_ih (fun p_captures => recorded (by simp [captures, p_captures])) holds
        middle_mem
      exact q_ih (fun q_captures => recorded (by simp [captures, q_captures])) holds_middle mem
  | alt p q p_ih q_ih =>
      rw [ends_alt, List.mem_append] at mem
      rcases mem with mem | mem
      · exact p_ih (fun p_captures => recorded (by simp [captures, p_captures])) holds mem
      · exact q_ih (fun q_captures => recorded (by simp [captures, q_captures])) holds mem
  | star body ih =>
      exact group_of_mem_iterate (fun holds mem => ih recorded holds mem) holds mem
  | capture body =>
      rw [ends_capture, List.mem_map] at mem
      obtain ⟨inner, -, rfl⟩ := mem
      exact recorded rfl _
  | many p | few p =>
      obtain ⟨place, -, rfl⟩ := List.mem_map.mp mem
      exact holds
  | text chars | edge | first | last | notAfter p =>
      simp only [ends] at mem
      split at mem <;> simp_all
  | one p =>
      simp only [ends] at mem
      split at mem
      · contradiction
      · split at mem <;> simp_all

/-- Without a part that records, nothing is recorded. -/
theorem group_of_matchAt? {place : Place} {found : Match} (plain : pattern.captures = false)
    (matched : pattern.matchAt? place = some found) : found.group = none := by
  obtain ⟨stop, first, rfl⟩ := Option.map_eq_some_iff.mp matched
  exact good_of_mem_ends (· = none) (by simp [plain]) rfl (List.mem_of_mem_head? first)

theorem isSome_of_mem_ends (always : pattern.records = true) (mem : stop ∈ pattern.ends reach) :
    stop.group.isSome = true := by
  induction pattern generalizing reach stop with
  | seq p q p_ih q_ih =>
      rw [ends_seq, List.mem_flatMap] at mem
      obtain ⟨middle, middle_mem, mem⟩ := mem
      rcases Bool.or_eq_true_iff.mp always with p_always | q_always
      · exact good_of_mem_ends (·.isSome = true) (fun _ _ => rfl)
          (p_ih p_always middle_mem) mem
      · exact q_ih q_always mem
  | alt p q p_ih q_ih =>
      obtain ⟨p_always, q_always⟩ := Bool.and_eq_true_iff.mp always
      rw [ends_alt, List.mem_append] at mem
      exact mem.elim (p_ih p_always) (q_ih q_always)
  | capture body =>
      rw [ends_capture, List.mem_map] at mem
      obtain ⟨inner, -, rfl⟩ := mem
      rfl
  | _ => contradiction

/-- If each way to read the pattern records a text, a text is recorded. -/
theorem isSome_group_of_matchAt? {place : Place} {found : Match} (always : pattern.records = true)
    (matched : pattern.matchAt? place = some found) : found.group.isSome = true := by
  obtain ⟨stop, first, rfl⟩ := Option.map_eq_some_iff.mp matched
  exact isSome_of_mem_ends always (List.mem_of_mem_head? first)

/-! ## Other surroundings -/

/-- Whether a pattern looks at nothing but the characters that it reads. -/
def isLocal : Pattern → Bool
  | .text _ => true
  | .one _ => true
  | .many _ => true
  | .few _ => true
  | .seq p q => p.isLocal && q.isLocal
  | .alt p q => p.isLocal && q.isLocal
  | .star body => body.isLocal
  | .edge => false
  | .notAfter _ => false
  | .first => false
  | .last => false
  | .capture body => body.isLocal

/-- A pattern that looks at nothing else reads the same stretch in every other place. -/
theorem Reads.elsewhere (alone : pattern.isLocal = true) (reads : pattern.Reads before s after)
    (front back : List Char) : pattern.Reads front s back := by
  induction pattern generalizing before s after front back with
  | text chars => exact reads
  | one p => exact reads
  | many p => exact reads
  | few p => exact reads
  | seq p q p_ih q_ih =>
      obtain ⟨p_local, q_local⟩ := Bool.and_eq_true_iff.mp alone
      obtain ⟨t, u, rfl, first, second⟩ := reads
      exact ⟨t, u, rfl, p_ih p_local first _ _, q_ih q_local second _ _⟩
  | alt p q p_ih q_ih =>
      obtain ⟨p_local, q_local⟩ := Bool.and_eq_true_iff.mp alone
      exact reads.imp (p_ih p_local · _ _) (q_ih q_local · _ _)
  | star body ih =>
      induction reads generalizing front back with
      | nil => exact .nil
      | cons nonempty first others others_ih =>
          exact .cons nonempty (ih alone first _ _) (others_ih _ _)
  | edge => contradiction
  | notAfter p => contradiction
  | first => contradiction
  | last => contradiction
  | capture body ih => exact ih alone reads front back

/-- A pattern that looks at nothing else begins a text if it begins a part of it. -/
theorem isHeadOf_append (alone : pattern.isLocal = true) {text : List Char}
    (head : pattern.isHeadOf text = true) (more : List Char) :
    pattern.isHeadOf (text ++ more) = true := by
  rw [isHeadOf_iff] at head ⊢
  obtain ⟨s, after, rfl, reads⟩ := head
  exact ⟨s, after ++ more, List.append_assoc s after more, reads.elsewhere alone _ _⟩

end Pattern
end SorobanLint
