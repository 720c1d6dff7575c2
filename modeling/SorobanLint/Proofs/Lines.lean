import SorobanLint.Contract.Line
import Mathlib

/-!
# Joined, split and numbered lines

Joining lines and counting line feeds are inverse to each other as long as no line holds a line
feed, and neither the lines of a source nor their masked texts do.  An excerpt is a run of
consecutive lines of a source; the number of its first line fixes the numbers of all others.
-/

namespace SorobanLint
namespace Text

@[simp]
theorem lineFeeds_nil : lineFeeds [] = 0 := rfl

theorem lineFeeds_eq_zero {s : List Char} (feedless : '\n' ∉ s) : lineFeeds s = 0 :=
  List.count_eq_zero.mpr feedless

theorem lineFeeds_cons_of_ne {c : Char} {s : List Char} (other : c ≠ '\n') :
    lineFeeds (c :: s) = lineFeeds s :=
  List.count_cons_of_ne other

@[simp]
theorem lineFeeds_cons_newline (s : List Char) : lineFeeds ('\n' :: s) = lineFeeds s + 1 :=
  List.count_cons_self

theorem lineFeeds_le_of_prefix {s t : List Char} (leading : s <+: t) : lineFeeds s ≤ lineFeeds t :=
  leading.sublist.count_le '\n'

theorem takeWhile_append_newline (front rest : List Char) :
    (front ++ '\n' :: rest).takeWhile (· ≠ '\n') = front.takeWhile (· ≠ '\n') := by
  induction front with
  | nil => rfl
  | cons c front ih =>
      by_cases feed : c = '\n'
      · simp [feed]
      · simpa [feed] using ih

theorem takeWhile_of_feedless {s : List Char} (feedless : '\n' ∉ s) :
    s.takeWhile (· ≠ '\n') = s :=
  List.takeWhile_eq_self_iff.mpr fun c mem => by
    simpa using ne_of_mem_of_not_mem mem feedless

/-- Every line feed but the last ones has so many others in front. -/
theorem exists_feed {k : Nat} {text : List Char} (lt : k < lineFeeds text) :
    ∃ front, lineFeeds front = k ∧ front ++ ['\n'] <+: text := by
  induction text generalizing k with
  | nil => simp at lt
  | cons c text ih =>
      by_cases feed : c = '\n'
      · subst feed
        cases k with
        | zero => exact ⟨[], rfl, ⟨text, rfl⟩⟩
        | succ k =>
            rw [lineFeeds_cons_newline] at lt
            obtain ⟨front, feeds, leading⟩ := ih (Nat.lt_of_succ_lt_succ lt)
            refine ⟨'\n' :: front, by rw [lineFeeds_cons_newline, feeds], ?_⟩
            exact (List.prefix_cons_inj _).mpr leading
      · rw [lineFeeds_cons_of_ne feed] at lt
        obtain ⟨front, feeds, leading⟩ := ih lt
        refine ⟨c :: front, by rw [lineFeeds_cons_of_ne feed, feeds], ?_⟩
        exact (List.prefix_cons_inj _).mpr leading

@[simp]
theorem joinLines_nil : joinLines [] = [] := rfl

@[simp]
theorem joinLines_singleton (line : List Char) : joinLines [line] = line := by
  simp [joinLines]

theorem joinLines_cons_cons (line next : List Char) (rest : List (List Char)) :
    joinLines (line :: next :: rest) = line ++ '\n' :: joinLines (next :: rest) := by
  simp [joinLines, List.intercalate_cons_cons]

/-- Every line but the first stands behind a line feed. -/
theorem joinLines_cons (line : List Char) (rest : List (List Char)) :
    joinLines (line :: rest) = line ++ rest.flatMap ('\n' :: ·) := by
  induction rest generalizing line with
  | nil => simp
  | cons next rest ih => rw [joinLines_cons_cons, ih, List.flatMap_cons, List.cons_append]

theorem lineFeeds_flatMap {lines : List (List Char)} (feedless : ∀ line ∈ lines, '\n' ∉ line) :
    lineFeeds (lines.flatMap ('\n' :: ·)) = lines.length := by
  induction lines with
  | nil => rfl
  | cons line rest ih =>
      have line_feedless := feedless line List.mem_cons_self
      have rest_feedless := ih fun other mem => feedless other (List.mem_cons_of_mem line mem)
      rw [List.flatMap_cons, List.cons_append, lineFeeds_cons_newline, lineFeeds_append,
        lineFeeds_eq_zero line_feedless, rest_feedless]
      simp

theorem lineFeeds_joinLines {line : List Char} {rest : List (List Char)}
    (line_feedless : '\n' ∉ line) (feedless : ∀ other ∈ rest, '\n' ∉ other) :
    lineFeeds (joinLines (line :: rest)) = rest.length := by
  rw [joinLines_cons, lineFeeds_append, lineFeeds_eq_zero line_feedless,
    lineFeeds_flatMap feedless, Nat.zero_add]

/-- The text between the line above the given lines and the line below them. -/
def between (lines : List (List Char)) : List Char :=
  lines.flatMap ('\n' :: ·) ++ ['\n']

theorem joinLines_between (above closing : List Char) (lines below : List (List Char)) :
    joinLines (above :: (lines ++ closing :: below)) =
      above ++ (between lines ++ (closing ++ below.flatMap ('\n' :: ·))) := by
  rw [joinLines_cons, List.flatMap_append, List.flatMap_cons, between]
  simp

theorem lineFeeds_between {lines : List (List Char)} (feedless : ∀ line ∈ lines, '\n' ∉ line) :
    lineFeeds (between lines) = lines.length + 1 := by
  rw [between, lineFeeds_append, lineFeeds_flatMap feedless]
  rfl

/-! ## Splitting -/

/-- Whether a text stays within one line. -/
def OneLine (s : List Char) : Prop :=
  ∀ c ∈ s, isTerminator c = false

theorem OneLine.feedless {s : List Char} (line : OneLine s) : '\n' ∉ s := by
  intro mem
  have terminator := line '\n' mem
  simp [isTerminator] at terminator

theorem oneLine_nil : OneLine [] := by
  simp [OneLine]

theorem oneLine_cons {c : Char} {s : List Char} :
    OneLine (c :: s) ↔ isTerminator c = false ∧ OneLine s := by
  simp [OneLine]

theorem splitLines_append_newline {line : List Char} (inside : OneLine line) (rest : List Char) :
    splitLines (line ++ '\n' :: rest) = line :: splitLines rest := by
  induction line with
  | nil => simp [splitLines, isTerminator]
  | cons c line ih =>
      obtain ⟨plain, inside⟩ := oneLine_cons.mp inside
      have not_return : c ≠ '\r' := by
        rintro rfl
        simp [isTerminator] at plain
      rw [List.cons_append, splitLines, if_neg (by simp [not_return]), if_neg (by simp [plain]),
        ih inside]
      rfl

/-- The lines, each ended by a line feed. -/
def terminated (lines : List (List Char)) : List Char :=
  lines.flatMap (· ++ ['\n'])

/-- Lines, each ended by a line feed, are split into the same lines. -/
theorem splitLines_terminated {lines : List (List Char)} (inside : ∀ line ∈ lines, OneLine line)
    (rest : List Char) : splitLines (terminated lines ++ rest) = lines ++ splitLines rest := by
  rw [terminated]
  induction lines with
  | nil => rfl
  | cons line lines ih =>
      have first := inside line List.mem_cons_self
      have others := ih fun other mem => inside other (List.mem_cons_of_mem line mem)
      rw [List.flatMap_cons, List.append_assoc, List.append_assoc, List.singleton_append,
        splitLines_append_newline first, others, List.cons_append]

theorem terminated_cons (line : List Char) (lines : List (List Char)) :
    terminated (line :: lines) = line ++ '\n' :: terminated lines := by
  rw [terminated, List.flatMap_cons, List.append_assoc, List.singleton_append, terminated]

theorem lineFeeds_terminated {lines : List (List Char)} (feedless : ∀ line ∈ lines, '\n' ∉ line) :
    lineFeeds (terminated lines) = lines.length := by
  induction lines with
  | nil => rfl
  | cons line lines ih =>
      rw [List.forall_mem_cons] at feedless
      rw [terminated_cons, lineFeeds_append, lineFeeds_eq_zero feedless.1, lineFeeds_cons_newline,
        ih feedless.2, Nat.zero_add, List.length_cons]

theorem joinLines_append (lines : List (List Char)) (line : List Char) (below : List (List Char)) :
    joinLines (lines ++ line :: below) = terminated lines ++ joinLines (line :: below) := by
  induction lines with
  | nil => rfl
  | cons first lines ih =>
      rw [terminated_cons, List.append_assoc, List.cons_append, List.cons_append, ← ih]
      cases lines with
      | nil => exact joinLines_cons_cons first line below
      | cons next lines => exact joinLines_cons_cons first next (lines ++ line :: below)

theorem joinLines_concat (lines : List (List Char)) (last : List Char) :
    joinLines (lines ++ [last]) = terminated lines ++ last := by
  rw [joinLines_append, joinLines_singleton]

theorem joinLines_append_cons {lines : List (List Char)} (nonempty : lines ≠ [])
    (next : List Char) (more : List (List Char)) :
    joinLines (lines ++ next :: more) = joinLines lines ++ '\n' :: joinLines (next :: more) := by
  rcases List.eq_nil_or_concat lines with rfl | ⟨init, line, rfl⟩
  · contradiction
  · rw [List.concat_eq_append, List.append_assoc, List.singleton_append, joinLines_append,
      joinLines_cons_cons, joinLines_concat, List.append_assoc]

theorem joinLines_prefix {lines : List (List Char)} (nonempty : lines ≠ [])
    (more : List (List Char)) : joinLines lines <+: joinLines (lines ++ more) := by
  cases more with
  | nil => rw [List.append_nil]
  | cons next more =>
      rw [joinLines_append_cons nonempty]
      exact List.prefix_append ..

/-- What stands in front of as many characters of joined lines has as many line feeds, whatever the
lines hold, as long as they have the same lengths. -/
theorem lineFeeds_take_joinLines {first second : List (List Char)}
    (lengths : first.map List.length = second.map List.length)
    (feedless : ∀ line ∈ first, '\n' ∉ line) (also_feedless : ∀ line ∈ second, '\n' ∉ line)
    (n : Nat) : lineFeeds ((joinLines first).take n) = lineFeeds ((joinLines second).take n) := by
  have take_feedless {line : List Char} (absent : '\n' ∉ line) (n : Nat) :
      lineFeeds (line.take n) = 0 :=
    lineFeeds_eq_zero fun mem => absent (List.mem_of_mem_take mem)
  induction first generalizing second n with
  | nil =>
      obtain rfl := List.map_eq_nil_iff.mp lengths.symm
      rfl
  | cons line first ih =>
      obtain ⟨other, second, rfl, length_eq, lengths⟩ := List.map_eq_cons_iff.mp lengths.symm
      rw [List.forall_mem_cons] at feedless also_feedless
      cases first with
      | nil =>
          obtain rfl := List.map_eq_nil_iff.mp lengths
          rw [joinLines_singleton, joinLines_singleton, take_feedless feedless.1,
            take_feedless also_feedless.1]
      | cons next first =>
          obtain ⟨next_other, second, rfl, -, -⟩ := List.map_eq_cons_iff.mp lengths
          rw [joinLines_cons_cons, joinLines_cons_cons, List.take_append, List.take_append,
            lineFeeds_append, lineFeeds_append, take_feedless feedless.1,
            take_feedless also_feedless.1, length_eq]
          cases n - line.length with
          | zero => rfl
          | succ k =>
              rw [List.take_succ_cons, List.take_succ_cons, lineFeeds_cons_newline,
                lineFeeds_cons_newline, ih lengths.symm feedless.2 also_feedless.2 k]

/-- What begins joined lines with less line feeds than there are lines begins these lines alone. -/
theorem prefix_joinLines {lines more : List (List Char)} {front : List Char}
    (feedless : ∀ line ∈ lines, '\n' ∉ line) (leading : front <+: joinLines (lines ++ more))
    (feeds_lt : lineFeeds front < lines.length) : front <+: joinLines lines := by
  have nonempty : lines ≠ [] := List.ne_nil_of_length_pos (Nat.zero_lt_of_lt feeds_lt)
  cases more with
  | nil => rwa [List.append_nil] at leading
  | cons next more =>
      rw [joinLines_append_cons nonempty] at leading
      obtain ⟨rest, whole⟩ := leading
      rcases List.append_eq_append_iff.mp whole with ⟨t, within, -⟩ | ⟨t, rfl, beyond⟩
      · exact ⟨t, within.symm⟩
      · cases t with
        | nil => rw [List.append_nil]
        | cons c t =>
            -- the line feed behind the lines would be one too many
            obtain ⟨rfl, -⟩ := List.cons.inj beyond
            obtain ⟨line, others, rfl⟩ := List.exists_cons_of_ne_nil nonempty
            rw [List.forall_mem_cons] at feedless
            rw [lineFeeds_append, lineFeeds_joinLines feedless.1 feedless.2,
              lineFeeds_cons_newline, List.length_cons] at feeds_lt
            omega

/-- Wherever joined lines are cut, the cut goes through one of them. -/
theorem cut_joinLines {lines : List (List Char)} {front rest : List Char} (nonempty : lines ≠ [])
    (whole : joinLines lines = front ++ rest) :
    ∃ above left right below, lines = above ++ (left ++ right) :: below ∧
      front = terminated above ++ left ∧ rest = joinLines (right :: below) := by
  induction lines generalizing front with
  | nil => contradiction
  | cons line lines ih =>
      cases lines with
      | nil =>
          rw [joinLines_singleton] at whole
          exact ⟨[], front, rest, [], by rw [whole]; rfl, rfl, (joinLines_singleton rest).symm⟩
      | cons next lines =>
          rw [joinLines_cons_cons] at whole
          rcases List.append_eq_append_iff.mp whole with ⟨t, rfl, below_eq⟩ | ⟨t, rfl, rfl⟩
          · cases t with
            | nil =>
                refine ⟨[], line, [], next :: lines, by simp, by simp [terminated], ?_⟩
                rw [joinLines_cons_cons]
                exact below_eq.symm
            | cons c t =>
                obtain ⟨rfl, others⟩ := List.cons.inj below_eq
                obtain ⟨above, left, right, below, lines_eq, rfl, rest_eq⟩ :=
                  ih (List.cons_ne_nil next lines) others
                refine ⟨line :: above, left, right, below, by rw [lines_eq]; rfl, ?_, rest_eq⟩
                rw [terminated_cons, List.append_assoc, List.cons_append]
          · exact ⟨[], front, t, next :: lines, rfl, rfl, (joinLines_cons_cons t next lines).symm⟩

/-- A part of joined lines without a line feed stands on one of them. -/
theorem cut_joinLines_token {lines : List (List Char)} {front token rest : List Char}
    (whole : joinLines lines = front ++ (token ++ rest)) (nonempty : token ≠ [])
    (feedless : '\n' ∉ token) :
    ∃ above left right below, lines = above ++ (left ++ (token ++ right)) :: below ∧
      front = terminated above ++ left ∧ rest = joinLines (right :: below) := by
  have some_lines : lines ≠ [] := by
    rintro rfl
    simp [nonempty] at whole
  obtain ⟨above, left, right, below, rfl, rfl, rest_eq⟩ := cut_joinLines some_lines whole
  rw [joinLines_cons] at rest_eq
  rcases List.append_eq_append_iff.mp rest_eq with ⟨t, rfl, rfl⟩ | ⟨t, rfl, below_eq⟩
  · exact ⟨above, left, t, below, rfl, rfl, (joinLines_cons t below).symm⟩
  · cases t with
    | nil =>
        exact ⟨above, left, [], below, by simp, rfl, by simpa [joinLines_cons] using below_eq.symm⟩
    | cons c t =>
        -- the token would go on below its line
        cases below with
        | nil => contradiction
        | cons next below =>
            obtain ⟨rfl, -⟩ := List.cons.inj below_eq
            simp at feedless

/-- Behind every line feed of joined lines, one of them begins. -/
theorem line_behind_feed {lines : List (List Char)} {front rest : List Char}
    (feedless : ∀ line ∈ lines, '\n' ∉ line) (whole : joinLines lines = front ++ '\n' :: rest) :
    ∃ above line below, lines = above ++ line :: below ∧ terminated above = front ++ ['\n'] ∧
      joinLines (line :: below) = rest := by
  have nonempty : lines ≠ [] := by
    rintro rfl
    simp at whole
  rw [List.append_cons] at whole
  obtain ⟨above, left, right, below, rfl, front_eq, rfl⟩ := cut_joinLines nonempty whole
  rcases List.eq_nil_or_concat left with rfl | ⟨left, last, rfl⟩
  · exact ⟨above, right, below, rfl, by rw [front_eq, List.append_nil], rfl⟩
  · rw [List.concat_eq_append, ← List.append_assoc] at front_eq
    obtain ⟨-, same⟩ := List.append_inj' front_eq rfl
    obtain rfl := List.singleton_inj.mp same
    have held := feedless (left.concat '\n' ++ right) (by simp)
    simp at held

theorem splitLines_of_oneLine {s : List Char} (inside : OneLine s) (nonempty : s ≠ []) :
    splitLines s = [s] := by
  induction s with
  | nil => contradiction
  | cons c s ih =>
      obtain ⟨plain, inside⟩ := oneLine_cons.mp inside
      have not_return : c ≠ '\r' := by
        rintro rfl
        simp [isTerminator] at plain
      rw [splitLines, if_neg (by simp [not_return]), if_neg (by simp [plain])]
      cases s with
      | nil => rfl
      | cons d s =>
          rw [ih inside (List.cons_ne_nil d s)]
          rfl

/-- Joined lines are split into the same lines, but for an empty line at the end. -/
theorem splitLines_joinLines {lines : List (List Char)} (inside : ∀ line ∈ lines, OneLine line)
    {last : List Char} (last_inside : OneLine last) :
    splitLines (joinLines (lines ++ [last])) = if last = [] then lines else lines ++ [last] := by
  rw [joinLines_concat, splitLines_terminated inside]
  split
  next empty => rw [empty, splitLines, List.append_nil]
  next nonempty => rw [splitLines_of_oneLine last_inside nonempty]

theorem linesOf_terminated {lines : List (List Char)} (inside : ∀ line ∈ lines, OneLine line)
    (source : String) :
    linesOf (String.ofList (terminated lines) ++ source) = lines ++ linesOf source := by
  rw [linesOf, String.toList_append, String.toList_ofList, splitLines_terminated inside]
  rfl

theorem oneLine_of_mem_consFirst {c : Char} {parts : List (List Char)} {line : List Char}
    (plain : isTerminator c = false) (inside : ∀ part ∈ parts, OneLine part)
    (mem : line ∈ consFirst c parts) : OneLine line := by
  cases parts with
  | nil =>
      obtain rfl := List.mem_singleton.mp mem
      exact oneLine_cons.mpr ⟨plain, oneLine_nil⟩
  | cons part rest =>
      rcases List.mem_cons.mp mem with rfl | mem
      · exact oneLine_cons.mpr ⟨plain, inside part List.mem_cons_self⟩
      · exact inside line (List.mem_cons_of_mem part mem)

theorem oneLine_of_mem_splitLines {s line : List Char} (mem : line ∈ splitLines s) :
    OneLine line := by
  induction s generalizing line with
  | nil => simp [splitLines] at mem
  | cons c rest ih =>
      rw [splitLines] at mem
      split at mem
      · exact ih mem
      next =>
        split at mem
        next =>
          rcases List.mem_cons.mp mem with rfl | mem
          · exact oneLine_nil
          · exact ih mem
        next plain => exact oneLine_of_mem_consFirst (by simpa using plain) (fun _ => ih) mem

end Text

open Text

/-! ## Masked lines -/

namespace Mask

theorem step_fst (state : MaskState) (c : Char) (rest : List Char) :
    (step state c rest).1 = c ∨ (step state c rest).1 = ' ' := by
  fun_cases step state c rest <;> simp

theorem feedless_line {text : List Char} (feedless : '\n' ∉ text) (state : MaskState) :
    '\n' ∉ (line state text).1 := by
  induction text generalizing state with
  | nil => simp [line]
  | cons c rest ih =>
      obtain ⟨other, feedless⟩ := List.ne_and_not_mem_of_not_mem_cons feedless
      have written_other : '\n' ≠ (step state c rest).1 := by
        rcases step_fst state c rest with same | blank
        · rwa [same]
        · rw [blank]
          decide
      exact List.not_mem_cons_of_ne_of_not_mem written_other (ih feedless _)

theorem feedless_linesFrom {lines : List (List Char)} (feedless : ∀ text ∈ lines, '\n' ∉ text)
    (state : MaskState) : ∀ text ∈ linesFrom state lines, '\n' ∉ text := by
  induction lines generalizing state with
  | nil => simp [linesFrom]
  | cons text rest ih =>
      intro masked mem
      rcases List.mem_cons.mp mem with rfl | mem
      · exact feedless_line (feedless text List.mem_cons_self) state
      · exact ih (fun other mem => feedless other (List.mem_cons_of_mem text mem)) _ masked mem

end Mask

namespace Mask

/-- The state in which the line behind the given lines begins. -/
def behind : MaskState → List (List Char) → MaskState
  | state, [] => state
  | state, text :: rest => behind (line state text).2 rest

theorem linesFrom_append (state : MaskState) (lines later : List (List Char)) :
    linesFrom state (lines ++ later) =
      linesFrom state lines ++ linesFrom (behind state lines) later := by
  induction lines generalizing state with
  | nil => rfl
  | cons text rest ih => simp only [List.cons_append, linesFrom, behind, ih]

end Mask

theorem length_mask_eq (lines : List (List Char)) : (mask lines).length = lines.length := by
  simpa using congrArg List.length (length_mask lines)

/-! ## Numbered lines -/

namespace Line

/-- Lines with consecutive numbers from `n` on, none of which holds a line feed. -/
def Numbered : Nat → List Line → Prop
  | _, [] => True
  | n, line :: rest => line.number = n ∧ '\n' ∉ line.raw ∧ '\n' ∉ line.code ∧ Numbered (n + 1) rest

theorem Numbered.drop {n : Nat} {lines : List Line} (numbered : Numbered n lines) (k : Nat) :
    Numbered (n + k) (lines.drop k) := by
  induction k generalizing n lines with
  | zero => exact numbered
  | succ k ih =>
      cases lines with
      | nil => trivial
      | cons line rest =>
          have below := ih numbered.2.2.2
          rwa [Nat.add_assoc, Nat.add_comm 1] at below

theorem Numbered.take {n : Nat} {lines : List Line} (numbered : Numbered n lines) (k : Nat) :
    Numbered n (lines.take k) := by
  induction k generalizing n lines with
  | zero => trivial
  | succ k ih =>
      cases lines with
      | nil => trivial
      | cons line rest =>
          obtain ⟨number, raw, code, below⟩ := numbered
          exact ⟨number, raw, code, ih below⟩

theorem Numbered.bounds {n : Nat} {lines : List Line} (numbered : Numbered n lines) {line : Line}
    (mem : line ∈ lines) : n ≤ line.number ∧ line.number < n + lines.length := by
  induction lines generalizing n with
  | nil => contradiction
  | cons first rest ih =>
      obtain ⟨number, -, -, below⟩ := numbered
      rw [List.length_cons]
      rcases List.mem_cons.mp mem with rfl | mem
      · omega
      · have bounds := ih below mem
        omega

/-- Different lines have different numbers. -/
theorem Numbered.eq_of_number_eq {n : Nat} {lines : List Line} (numbered : Numbered n lines)
    {line other : Line} (line_mem : line ∈ lines) (other_mem : other ∈ lines)
    (same : line.number = other.number) : line = other := by
  induction lines generalizing n with
  | nil => contradiction
  | cons first rest ih =>
      obtain ⟨number, -, -, below⟩ := numbered
      rcases List.mem_cons.mp line_mem with line_eq | line_below
      · rcases List.mem_cons.mp other_mem with other_eq | other_below
        · rw [line_eq, other_eq]
        · have bounds := below.bounds other_below
          rw [line_eq] at same
          omega
      · rcases List.mem_cons.mp other_mem with other_eq | other_below
        · have bounds := below.bounds line_below
          rw [other_eq] at same
          omega
        · exact ih below line_below other_below

theorem Numbered.feedless_raw {n : Nat} {lines : List Line} (numbered : Numbered n lines) :
    ∀ text ∈ lines.map (·.raw), '\n' ∉ text := by
  induction lines generalizing n with
  | nil => simp
  | cons line rest ih =>
      obtain ⟨-, raw, -, below⟩ := numbered
      rw [List.map_cons, List.forall_mem_cons]
      exact ⟨raw, ih below⟩

theorem Numbered.feedless_code {n : Nat} {lines : List Line} (numbered : Numbered n lines) :
    ∀ text ∈ lines.map (·.code), '\n' ∉ text := by
  induction lines generalizing n with
  | nil => simp
  | cons line rest ih =>
      obtain ⟨-, -, code, below⟩ := numbered
      rw [List.map_cons, List.forall_mem_cons]
      exact ⟨code, ih below⟩

theorem numbered_numberFrom {n : Nat} {raws codes : List (List Char)}
    (raws_feedless : ∀ text ∈ raws, '\n' ∉ text) (codes_feedless : ∀ text ∈ codes, '\n' ∉ text) :
    Numbered n (numberFrom n raws codes) := by
  induction raws generalizing n codes with
  | nil => trivial
  | cons raw raws ih =>
      cases codes with
      | nil => trivial
      | cons code codes =>
          rw [List.forall_mem_cons] at raws_feedless codes_feedless
          exact ⟨rfl, raws_feedless.1, codes_feedless.1, ih raws_feedless.2 codes_feedless.2⟩

theorem map_raw_numberFrom {n : Nat} {raws codes : List (List Char)}
    (same_length : codes.length = raws.length) :
    (numberFrom n raws codes).map (·.raw) = raws := by
  induction raws generalizing n codes with
  | nil => rfl
  | cons raw raws ih =>
      obtain ⟨code, codes, rfl⟩ := List.exists_cons_of_length_eq_add_one same_length
      simp only [numberFrom, List.map_cons, ih (Nat.succ.inj same_length)]

theorem map_code_numberFrom {n : Nat} {raws codes : List (List Char)}
    (same_length : codes.length = raws.length) :
    (numberFrom n raws codes).map (·.code) = codes := by
  induction raws generalizing n codes with
  | nil => simpa [numberFrom, eq_comm] using same_length
  | cons raw raws ih =>
      obtain ⟨code, codes, rfl⟩ := List.exists_cons_of_length_eq_add_one same_length
      simp only [numberFrom, List.map_cons, ih (Nat.succ.inj same_length)]

theorem map_raw_ofTexts (texts : List (List Char)) : (ofTexts texts).map (·.raw) = texts :=
  map_raw_numberFrom (length_mask_eq texts)

theorem map_code_ofTexts (texts : List (List Char)) : (ofTexts texts).map (·.code) = mask texts :=
  map_code_numberFrom (length_mask_eq texts)

theorem numbered_ofTexts {texts : List (List Char)} (feedless : ∀ text ∈ texts, '\n' ∉ text) :
    Numbered 1 (ofTexts texts) :=
  numbered_numberFrom feedless (Mask.feedless_linesFrom feedless .code)

end Line
end SorobanLint
