import SorobanLint.Text.Pattern
import Mathlib

/-!
# How patterns read

What a pattern matches behind a character does not depend on what stands in front of that character
(`ends_behind`), so a pattern that begins with a given text is found behind a text without its first
character exactly if it is found there alone (`occursIn_append`).
-/

namespace SorobanLint

open Text

/-! ## Text in front -/

/-- The place with a context in front of its text; `context` holds its nearest character first. -/
def Place.behind (context : List Char) (place : Place) : Place :=
  ⟨place.before ++ context, place.after⟩

/-- The reach with a context in front of its text. -/
def Reach.behind (context : List Char) (reach : Reach) : Reach :=
  ⟨reach.place.behind context,
    reach.group.map fun (start, stop) => (start.behind context, stop.behind context)⟩

namespace Place

variable {context : List Char}

theorem pass?_behind (chars : List Char) (place : Place) :
    (place.behind context).pass? chars = (place.pass? chars).map (·.behind context) := by
  induction chars generalizing place with
  | nil => rfl
  | cons c cs ih =>
      obtain ⟨before, after⟩ := place
      cases after with
      | nil => rfl
      | cons d rest =>
          simp only [behind, pass?]
          split
          · exact ih ⟨d :: before, rest⟩
          · rfl

theorem run_behind (p : Char → Bool) (before after : List Char) :
    run p (before ++ context) after = (run p before after).map (·.behind context) := by
  induction after generalizing before with
  | nil => rfl
  | cons c rest ih =>
      rw [run, run, List.map_cons]
      split
      · rw [← List.cons_append, ih]
        rfl
      · rfl

theorem before_ne_nil_of_pass? {chars : List Char} {place stop : Place}
    (inside : place.before ≠ []) (passed : place.pass? chars = some stop) : stop.before ≠ [] := by
  induction chars generalizing place with
  | nil =>
      obtain rfl := Option.some.inj passed
      exact inside
  | cons c cs ih =>
      obtain ⟨before, after⟩ := place
      cases after with
      | nil => simp [pass?] at passed
      | cons d rest =>
          simp only [pass?] at passed
          split at passed
          · exact ih (List.cons_ne_nil d before) passed
          · contradiction

theorem before_ne_nil_of_mem_run {p : Char → Bool} {before after : List Char} {stop : Place}
    (inside : before ≠ []) (mem : stop ∈ run p before after) : stop.before ≠ [] := by
  induction after generalizing before with
  | nil =>
      obtain rfl := List.mem_singleton.mp mem
      exact inside
  | cons c rest ih =>
      rw [run] at mem
      rcases List.mem_cons.mp mem with rfl | mem
      · exact inside
      · split at mem
        · exact ih (List.cons_ne_nil c before) mem
        · contradiction

end Place

namespace Pattern

variable {context : List Char} {reach stop : Reach}

theorem ends_seq (p q : Pattern) (reach : Reach) :
    (seq p q).ends reach = (p.ends reach).flatMap q.ends := rfl

theorem ends_alt (p q : Pattern) (reach : Reach) :
    (alt p q).ends reach = p.ends reach ++ q.ends reach := rfl

theorem ends_capture (body : Pattern) (reach : Reach) :
    (capture body).ends reach =
      (body.ends reach).map fun stop => { stop with group := some (reach.place, stop.place) } :=
  rfl

theorem start_of_matchAt? {pattern : Pattern} {place : Place} {found : Match}
    (matched : pattern.matchAt? place = some found) : found.start = place := by
  obtain ⟨reach, -, rfl⟩ := Option.map_eq_some_iff.mp matched
  rfl

theorem before_ne_nil_of_mem_iterate {step : Reach → List Reach}
    (keeps : ∀ reach, reach.place.before ≠ [] → ∀ next ∈ step reach, next.place.before ≠ [])
    (n : Nat) (inside : reach.place.before ≠ []) (mem : stop ∈ Reach.iterate step n reach) :
    stop.place.before ≠ [] := by
  induction n generalizing reach with
  | zero =>
      obtain rfl := List.mem_singleton.mp mem
      exact inside
  | succ n ih =>
      rw [Reach.iterate, List.mem_append, List.mem_flatMap, List.mem_singleton] at mem
      rcases mem with ⟨next, next_mem, mem⟩ | rfl
      · exact ih (keeps reach inside next next_mem) mem
      · exact inside

/-- A pattern that starts behind a character stops behind one. -/
theorem before_ne_nil_of_mem_ends (pattern : Pattern) (inside : reach.place.before ≠ [])
    (mem : stop ∈ pattern.ends reach) : stop.place.before ≠ [] := by
  induction pattern generalizing reach stop with
  | text chars =>
      simp only [ends] at mem
      split at mem
      next place passed =>
        obtain rfl := List.mem_singleton.mp mem
        exact Place.before_ne_nil_of_pass? inside passed
      next => contradiction
  | one p =>
      simp only [ends] at mem
      split at mem
      · contradiction
      · split at mem
        · obtain rfl := List.mem_singleton.mp mem
          exact List.cons_ne_nil _ _
        · contradiction
  | many p =>
      simp only [ends, List.mem_map, List.mem_reverse] at mem
      obtain ⟨place, mem, rfl⟩ := mem
      exact Place.before_ne_nil_of_mem_run inside mem
  | few p =>
      simp only [ends, List.mem_map] at mem
      obtain ⟨place, mem, rfl⟩ := mem
      exact Place.before_ne_nil_of_mem_run inside mem
  | seq p q p_ih q_ih =>
      simp only [ends, List.mem_flatMap] at mem
      obtain ⟨middle, middle_mem, mem⟩ := mem
      exact q_ih (p_ih inside middle_mem) mem
  | alt p q p_ih q_ih =>
      rw [ends, List.mem_append] at mem
      exact mem.elim (p_ih inside) (q_ih inside)
  | star body ih =>
      exact before_ne_nil_of_mem_iterate (fun _ inside _ mem => ih inside mem) _ inside mem
  | edge =>
      simp only [ends] at mem
      split at mem
      · rwa [List.mem_singleton.mp mem]
      · contradiction
  | notAfter p =>
      simp only [ends] at mem
      split at mem
      · contradiction
      · rwa [List.mem_singleton.mp mem]
  | first =>
      simp only [ends] at mem
      split at mem
      · rwa [List.mem_singleton.mp mem]
      · contradiction
  | last =>
      simp only [ends] at mem
      split at mem
      · rwa [List.mem_singleton.mp mem]
      · contradiction
  | capture body ih =>
      rw [ends_capture, List.mem_map] at mem
      obtain ⟨inner, mem, rfl⟩ := mem
      have inner_inside : inner.place.before ≠ [] := ih inside mem
      exact inner_inside

theorem iterate_behind {step : Reach → List Reach}
    (keeps : ∀ reach, reach.place.before ≠ [] → ∀ next ∈ step reach, next.place.before ≠ [])
    (moves : ∀ reach, reach.place.before ≠ [] →
      step (reach.behind context) = (step reach).map (·.behind context))
    (n : Nat) (inside : reach.place.before ≠ []) :
    Reach.iterate step n (reach.behind context) =
      (Reach.iterate step n reach).map (·.behind context) := by
  induction n generalizing reach with
  | zero => rfl
  | succ n ih =>
      rw [Reach.iterate, Reach.iterate, moves reach inside, List.map_append, List.map_flatMap,
        List.flatMap_map]
      congr 1
      exact List.flatMap_congr fun next mem => ih (keeps reach inside next mem)

theorem head?_append_of_ne_nil {s t : List Char} (nonempty : s ≠ []) :
    (s ++ t).head? = s.head? := by
  obtain ⟨c, rest, rfl⟩ := List.exists_cons_of_ne_nil nonempty
  rfl

/-- Behind a character, a pattern reads the same whatever stands in front of that character. -/
theorem ends_behind (pattern : Pattern) (inside : reach.place.before ≠ []) :
    pattern.ends (reach.behind context) = (pattern.ends reach).map (·.behind context) := by
  have near : (reach.place.before ++ context).head? = reach.place.before.head? :=
    head?_append_of_ne_nil inside
  induction pattern generalizing reach with
  | text chars =>
      simp only [ends, Reach.behind, Place.pass?_behind]
      cases reach.place.pass? chars <;> rfl
  | one p =>
      obtain ⟨⟨before, after⟩, group⟩ := reach
      cases after with
      | nil => rfl
      | cons c rest =>
          simp only [ends, Reach.behind, Place.behind]
          split <;> rfl
  | many p =>
      simp only [ends, Reach.behind, Place.behind, Place.run_behind, ← List.map_reverse,
        List.map_map]
      rfl
  | few p =>
      simp only [ends, Reach.behind, Place.behind, Place.run_behind, List.map_map]
      rfl
  | seq p q p_ih q_ih =>
      rw [ends_seq, p_ih inside near, List.flatMap_map, ends_seq, List.map_flatMap]
      refine List.flatMap_congr fun middle mem => ?_
      have middle_inside := before_ne_nil_of_mem_ends p inside mem
      exact q_ih middle_inside (head?_append_of_ne_nil middle_inside)
  | alt p q p_ih q_ih =>
      rw [ends_alt, p_ih inside near, q_ih inside near, ends_alt, List.map_append]
  | star body ih =>
      exact iterate_behind (fun _ inside _ mem => before_ne_nil_of_mem_ends body inside mem)
        (fun _ inside => ih inside (head?_append_of_ne_nil inside)) _ inside
  | edge =>
      have same : (reach.behind context).place.atWordEdge = reach.place.atWordEdge := by
        rw [Place.atWordEdge, Reach.behind, Place.behind, near, Place.atWordEdge]
      simp only [ends, same]
      cases reach.place.atWordEdge <;> rfl
  | notAfter p =>
      simp only [ends, Reach.behind, Place.behind, near]
      cases reach.place.before.head?.any p <;> rfl
  | first =>
      have outside : reach.place.before ++ context ≠ [] :=
        List.append_ne_nil_of_left_ne_nil inside _
      simp [ends, Reach.behind, Place.behind, inside, outside]
  | last =>
      obtain ⟨⟨before, after⟩, group⟩ := reach
      cases after <;> rfl
  | capture body ih =>
      rw [ends_capture, ends_capture, ih inside near, List.map_map, List.map_map]
      rfl

/-! ## Searches for a leading text -/

/-- A pattern with a leading text is found at a place whatever stands in front of the place. -/
theorem isSome_matchAt?_text (c : Char) (cs : List Char) (pattern : Pattern)
    (before after : List Char) :
    ((seq (.text (c :: cs)) pattern).matchAt? ⟨before, after⟩).isSome =
      ((seq (.text (c :: cs)) pattern).matchAt? ⟨[], after⟩).isSome := by
  have moved : (seq (.text (c :: cs)) pattern).ends ⟨⟨before, after⟩, none⟩ =
      ((seq (.text (c :: cs)) pattern).ends ⟨⟨[], after⟩, none⟩).map (·.behind before) := by
    cases after with
    | nil => rfl
    | cons d rest =>
        simp only [ends, Place.pass?]
        by_cases same : c = d
        · simp only [if_pos same]
          have passed : (Place.behind before ⟨[d], rest⟩).pass? cs = _ :=
            Place.pass?_behind cs ⟨[d], rest⟩
          simp only [Place.behind, List.singleton_append] at passed
          rw [passed]
          cases found : Place.pass? cs ⟨[d], rest⟩ with
          | none => rfl
          | some stop =>
              have inside := Place.before_ne_nil_of_pass? (List.cons_ne_nil d []) found
              have moved : pattern.ends (Reach.behind before ⟨stop, none⟩) = _ :=
                ends_behind pattern inside
              simpa [Reach.behind, Place.behind] using moved
        · simp only [if_neg same]
          rfl
  simp only [matchAt?, moved, List.head?_map, Option.isSome_map]

theorem isSome_searchFrom?_cons (pattern : Pattern) (before : List Char) (c : Char)
    (rest : List Char) :
    (pattern.searchFrom? before (c :: rest)).isSome =
      ((pattern.matchAt? ⟨before, c :: rest⟩).isSome ||
        (pattern.searchFrom? (c :: before) rest).isSome) := by
  rw [searchFrom?]
  cases pattern.matchAt? ⟨before, c :: rest⟩ <;> rfl

variable {c : Char} {cs : List Char} {pattern : Pattern}

theorem isSome_searchFrom?_text (before text : List Char) :
    ((seq (.text (c :: cs)) pattern).searchFrom? before text).isSome =
      ((seq (.text (c :: cs)) pattern).searchFrom? [] text).isSome := by
  induction text generalizing before with
  | nil => exact isSome_matchAt?_text c cs pattern before []
  | cons d rest ih =>
      rw [isSome_searchFrom?_cons, isSome_searchFrom?_cons, isSome_matchAt?_text, ih (d :: before),
        ih [d]]

theorem matchAt?_text_of_ne {d : Char} (other : d ≠ c) (before rest : List Char) :
    (seq (.text (c :: cs)) pattern).matchAt? ⟨before, d :: rest⟩ = none := by
  simp [matchAt?, ends, Place.pass?, other.symm]

/-- A pattern with a leading text is not found before the first character of that text. -/
theorem occursIn_append {lead : List Char} (absent : c ∉ lead) (text : List Char) :
    (seq (.text (c :: cs)) pattern).occursIn (lead ++ text) =
      (seq (.text (c :: cs)) pattern).occursIn text := by
  induction lead with
  | nil => rfl
  | cons d lead ih =>
      obtain ⟨other, absent⟩ := List.ne_and_not_mem_of_not_mem_cons absent
      rw [← ih absent]
      simp only [occursIn, search?, List.cons_append, searchFrom?,
        matchAt?_text_of_ne other.symm, isSome_searchFrom?_text [d]]

end Pattern
end SorobanLint
