import SorobanLint.Proofs.Brackets.Group
import SorobanLint.Proofs.Matching
import SorobanLint.Proofs.Nesting

/-!
# Texts on one line

A text is put on one line by writing a space for each line feed.  Both characters are blank, and
brackets, words and names look at neither of them; so searches, walks and splits find the same
places in the text on one line, and its words are the same (`stopFrom?_unbroken`, `words_unbroken`).
-/

namespace SorobanLint

open Text

namespace Text

variable {c : Char} {s t : List Char}

/-- A space for a line feed, and every other character itself. -/
def flat (c : Char) : Char := if c = '\n' then ' ' else c

/-- The text on one line. -/
def unbroken (s : List Char) : List Char := s.map flat

/-- What takes a line feed for a space takes each character for what it is on one line. -/
theorem apply_flat {α : Type} {p : Char → α} (same : p ' ' = p '\n') (c : Char) :
    p (flat c) = p c := by
  by_cases feed : c = '\n'
  · rw [feed]
    exact same
  · rw [flat, if_neg feed]

theorem flat_of_ne (other : c ≠ '\n') : flat c = c := if_neg other

theorem flat_ne {d : Char} (other : c ≠ d) (solid : ' ' ≠ d) : flat c ≠ d := by
  rw [flat]
  split
  · exact solid
  · exact other

theorem eq_of_flat {d : Char} (same : flat c = d) (solid : d ≠ ' ') : c = d := by
  by_contra other
  exact flat_ne other solid.symm same

@[simp]
theorem unbroken_nil : unbroken [] = [] := rfl

@[simp]
theorem unbroken_cons (c : Char) (s : List Char) : unbroken (c :: s) = flat c :: unbroken s := rfl

@[simp]
theorem unbroken_append (s t : List Char) : unbroken (s ++ t) = unbroken s ++ unbroken t :=
  List.map_append

@[simp]
theorem length_unbroken (s : List Char) : (unbroken s).length = s.length := List.length_map _

theorem head?_unbroken (s : List Char) : (unbroken s).head? = s.head?.map flat := List.head?_map

theorem unbroken_of_feedless (feedless : '\n' ∉ s) : unbroken s = s := by
  refine (List.map_congr_left ?_).trans s.map_id
  intro c mem
  exact flat_of_ne (ne_of_mem_of_not_mem mem feedless)

theorem feedless_unbroken (s : List Char) : '\n' ∉ unbroken s := by
  intro mem
  obtain ⟨c, -, feed⟩ := List.mem_map.mp mem
  by_cases same : c = '\n'
  · rw [same] at feed
    contradiction
  · rw [flat_of_ne same] at feed
    exact same feed

/-- Joined lines on one line are the lines with spaces between them. -/
theorem unbroken_joinLines {lines : List (List Char)} (feedless : ∀ line ∈ lines, '\n' ∉ line) :
    unbroken (joinLines lines) = [' '].intercalate lines := by
  induction lines with
  | nil => rfl
  | cons line rest ih =>
      rw [List.forall_mem_cons] at feedless
      cases rest with
      | nil => rw [joinLines_singleton, List.intercalate_singleton, unbroken_of_feedless feedless.1]
      | cons next rest =>
          rw [joinLines_cons_cons, unbroken_append, unbroken_cons, ih feedless.2,
            unbroken_of_feedless feedless.1, List.intercalate_cons_cons, List.append_assoc]
          rfl

/-- What holds of spaces and of all characters of the lines holds of those of the joined lines on
one line. -/
theorem forall_mem_unbroken_joinLines {lines : List (List Char)} {p : Char → Prop}
    (each : ∀ line ∈ lines, ∀ c ∈ line, p c) (space : p ' ') :
    ∀ c ∈ unbroken (joinLines lines), p c := by
  intro c mem
  obtain ⟨d, d_mem, rfl⟩ := List.mem_map.mp mem
  by_cases feed : d = '\n'
  · rw [feed]
    exact space
  · rw [flat_of_ne feed]
    cases lines with
    | nil => contradiction
    | cons line rest =>
        rw [joinLines_cons, List.mem_append] at d_mem
        rcases d_mem with d_mem | d_mem
        · exact each line List.mem_cons_self d d_mem
        · obtain ⟨other, other_mem, d_mem⟩ := List.mem_flatMap.mp d_mem
          have inside := List.mem_of_ne_of_mem feed d_mem
          exact each other (List.mem_cons_of_mem line other_mem) d inside

/-! ## Blanks and words -/

theorem isBlank_flat (c : Char) : isBlank (flat c) = isBlank c := apply_flat rfl c

theorem isWord_flat (c : Char) : isWord (flat c) = isWord c := apply_flat rfl c

theorem dropWhile_unbroken {p : Char → Bool} (same : p ' ' = p '\n') (s : List Char) :
    (unbroken s).dropWhile p = unbroken (s.dropWhile p) := by
  rw [unbroken, List.dropWhile_map]
  exact congrArg (List.map flat) (congrArg (List.dropWhile · s) (funext (apply_flat same)))

theorem takeWhile_unbroken {p : Char → Bool} (same : p ' ' = p '\n') (s : List Char) :
    (unbroken s).takeWhile p = unbroken (s.takeWhile p) := by
  rw [unbroken, List.takeWhile_map]
  exact congrArg (List.map flat) (congrArg (List.takeWhile · s) (funext (apply_flat same)))

theorem reverse_unbroken (s : List Char) : (unbroken s).reverse = unbroken s.reverse :=
  List.map_reverse.symm

theorem trimStart_unbroken (s : List Char) : trimStart (unbroken s) = unbroken (trimStart s) :=
  dropWhile_unbroken rfl s

theorem trim_unbroken (s : List Char) : trim (unbroken s) = unbroken (trim s) := by
  rw [trim, trimStart_unbroken, trimEnd, dropEndWhile, reverse_unbroken,
    dropWhile_unbroken rfl, reverse_unbroken, trim, trimEnd, dropEndWhile]

theorem pieces_unbroken (s : List Char) : pieces isBlank (unbroken s) = pieces isBlank s := by
  induction s with
  | nil => rfl
  | cons c s ih =>
      rw [unbroken_cons, pieces, pieces, isBlank_flat, ih]
      by_cases feed : c = '\n'
      · rw [feed]
        rfl
      · rw [flat_of_ne feed]

theorem words_unbroken (s : List Char) : words (unbroken s) = words s := by
  rw [words, pieces_unbroken, words]

theorem squeeze_unbroken (s : List Char) : squeeze (unbroken s) = squeeze s := by
  rw [squeeze, words_unbroken, squeeze]

end Text

/-! ## Words by themselves -/

namespace Pattern

variable {pattern : Pattern} {word : List Char}

/-- What is matched at the same places is found behind the same text. -/
theorem searchFrom?_unbroken
    (same : ∀ before text, (pattern.matchAt? ⟨unbroken before, unbroken text⟩).isSome =
      (pattern.matchAt? ⟨before, text⟩).isSome) (before text : List Char) :
    (pattern.searchFrom? (unbroken before) (unbroken text)).map (·.start.textBefore) =
      (pattern.searchFrom? before text).map fun found => unbroken found.start.textBefore := by
  have here (before text : List Char) :
      (pattern.matchAt? ⟨unbroken before, unbroken text⟩).map (·.start.textBefore) =
        (pattern.matchAt? ⟨before, text⟩).map fun found => unbroken found.start.textBefore := by
    have same_here := same before text
    cases there : pattern.matchAt? ⟨before, text⟩ with
    | none =>
        rw [there, Option.isSome_none, Option.isSome_eq_false_iff,
          Option.isNone_iff_eq_none] at same_here
        rw [same_here]
        rfl
    | some found =>
        rw [there, Option.isSome_some, Option.isSome_iff_exists] at same_here
        obtain ⟨flat_found, flat_there⟩ := same_here
        rw [flat_there, Option.map_some, Option.map_some, start_of_matchAt? there,
          start_of_matchAt? flat_there]
        exact congrArg some (reverse_unbroken before)
  induction text generalizing before with
  | nil => exact here before []
  | cons c rest ih =>
      have matched := here before (c :: rest)
      have onward := ih (c :: before)
      rw [unbroken_cons] at matched onward
      rw [unbroken_cons, searchFrom?, searchFrom?]
      cases there : pattern.matchAt? ⟨before, c :: rest⟩ with
      | none =>
          rw [there, Option.map_none, Option.map_eq_none_iff] at matched
          rw [matched]
          exact onward
      | some found =>
          rw [there, Option.map_some, Option.map_eq_some_iff] at matched
          obtain ⟨flat_found, flat_there, flat_eq⟩ := matched
          rw [flat_there]
          exact congrArg some flat_eq

/-- A word stands by itself on one line where it does in the text. -/
theorem isSome_matchAt?_whole_unbroken (inside : ∀ c ∈ word, isWord c = true)
    (nonempty : word ≠ []) (before text : List Char) :
    ((whole word).matchAt? ⟨unbroken before, unbroken text⟩).isSome =
      ((whole word).matchAt? ⟨before, text⟩).isSome := by
  have outside : (unbroken before).head?.any isWord = before.head?.any isWord := by
    rw [head?_unbroken]
    cases before with
    | nil => rfl
    | cons c before => exact isWord_flat c
  have first_word : (unbroken text).takeWhile isWord = text.takeWhile isWord := by
    rw [takeWhile_unbroken rfl, unbroken_of_feedless]
    intro mem
    exact absurd (List.mem_takeWhile_imp mem) (by decide)
  rw [Bool.eq_iff_iff, matchAt?_whole inside nonempty, matchAt?_whole inside nonempty, outside,
    first_word]

theorem textBefore_whole_unbroken (inside : ∀ c ∈ word, isWord c = true) (nonempty : word ≠ [])
    (text : List Char) :
    (whole word).textBefore (unbroken text) = unbroken ((whole word).textBefore text) := by
  have found : ((whole word).search? (unbroken text)).map (·.start.textBefore) =
      ((whole word).search? text).map fun found => unbroken found.start.textBefore :=
    searchFrom?_unbroken (isSome_matchAt?_whole_unbroken inside nonempty) [] text
  rw [textBefore, textBefore]
  cases there : (whole word).search? text with
  | none =>
      rw [there, Option.map_none, Option.map_eq_none_iff] at found
      rw [found]
  | some first =>
      rw [there, Option.map_some, Option.map_eq_some_iff] at found
      obtain ⟨flat_first, flat_there, flat_eq⟩ := found
      rw [flat_there]
      exact flat_eq

end Pattern

/-! ## Brackets -/

/-- The visit of the character on one line. -/
def Visit.flat (visit : Visit) : Visit := { visit with char := Text.flat visit.char }

/-- The stop in the text on one line. -/
def Stop.unbroken (stop : Stop) : Stop :=
  ⟨Text.unbroken stop.before, stop.visit.flat, Text.unbroken stop.after⟩

namespace Bracket

variable {hit : Visit → Bool}

theorem all_flat {p : Char → Bool} (same : p ' ' = p '\n') (neighbour : Option Char) :
    (neighbour.map flat).all p = neighbour.all p := by
  cases neighbour with
  | none => rfl
  | some c => exact apply_flat same c

theorem opensAngle_flat (previous next : Option Char) :
    opensAngle (previous.map flat) (next.map flat) = opensAngle previous next := by
  rw [opensAngle, all_flat rfl, all_flat rfl, opensAngle]

theorem closesAngle_flat (previous : Option Char) :
    closesAngle (previous.map flat) = closesAngle previous :=
  all_flat rfl previous

theorem step_flat (stack : List Bracket) (previous : Option Char) (c : Char)
    (next : Option Char) :
    step stack (previous.map flat) (flat c) (next.map flat) = step stack previous c next := by
  by_cases feed : c = '\n'
  · rw [feed]
    rfl
  · rw [flat_of_ne feed, step, opensAngle_flat, closesAngle_flat, step]

theorem visit_flat (stack : List Bracket) (previous : Option Char) (c : Char)
    (next : Option Char) :
    Visit.of stack (previous.map flat) (flat c) (next.map flat) =
      (Visit.of stack previous c next).flat := by
  rw [Visit.of, step_flat]
  rfl

/-- A search that takes a line feed for a space stops on one line where it stops in the text. -/
theorem stopFrom?_unbroken
    (same : ∀ before after, hit ⟨' ', before, after⟩ = hit ⟨'\n', before, after⟩)
    (stack : List Bracket) (previous : Option Char) (text : List Char) :
    stopFrom? hit stack (previous.map flat) (unbroken text) =
      (stopFrom? hit stack previous text).map Stop.unbroken := by
  have blind (visit : Visit) : hit visit.flat = hit visit :=
    apply_flat (p := fun c => hit ⟨c, visit.before, visit.after⟩) (same _ _) visit.char
  induction text generalizing stack previous with
  | nil => rfl
  | cons c rest ih =>
      rw [unbroken_cons, stopFrom?, stopFrom?, head?_unbroken, visit_flat, blind]
      split
      next => rfl
      next =>
        have onward := ih (Visit.of stack previous c rest.head?).after (some c)
        rw [Option.map_some] at onward
        change Option.map _ (stopFrom? hit (Visit.of stack previous c rest.head?).after _ _) = _
        rw [onward, Option.map_map, Option.map_map]
        rfl

theorem isWrongCloser_flat (visit : Visit) : visit.flat.isWrongCloser = visit.isWrongCloser :=
  apply_flat (p := fun c => Visit.isWrongCloser ⟨c, visit.before, visit.after⟩) rfl visit.char

theorem firstGroup_unbroken {text before inner after : List Char}
    (found : firstGroup text = .found before inner after) :
    firstGroup (unbroken text) = .found (unbroken before) (unbroken inner) (unbroken after) := by
  obtain ⟨head, tail, opened, right_opener, closed, right_closer, rfl, rfl, rfl⟩ :=
    exists_stops_of_firstGroup found
  have flat_opened : stop? beginsGroup (unbroken text) = (stop? beginsGroup text).map _ :=
    stopFrom?_unbroken (fun _ _ => rfl) [] none text
  have flat_closed : stopFrom? endsGroup head.visit.after (some '(') (unbroken head.after) =
      (stopFrom? endsGroup head.visit.after (some '(') head.after).map Stop.unbroken :=
    stopFrom?_unbroken (fun _ _ => rfl) head.visit.after (some '(') head.after
  rw [opened, Option.map_some] at flat_opened
  rw [closed, Option.map_some] at flat_closed
  exact firstGroup_of_stops flat_opened ((isWrongCloser_flat _).trans right_opener) flat_closed
    ((isWrongCloser_flat _).trans right_closer)

theorem bodyStart?_unbroken (text : List Char) :
    bodyStart? (unbroken text) = (bodyStart? text).map Stop.unbroken :=
  stopFrom?_unbroken (fun _ _ => rfl) [] none text

theorem map_unbroken_consFirst (c : Char) (parts : List (List Char)) :
    (consFirst c parts).map unbroken = consFirst (flat c) (parts.map unbroken) := by
  cases parts <;> rfl

theorem slicesFrom_unbroken {isDelimiter : Char → Bool}
    (same : isDelimiter ' ' = isDelimiter '\n') (stack : List Bracket) (previous : Option Char)
    (text : List Char) :
    slicesFrom isDelimiter stack (previous.map flat) (unbroken text) =
      (slicesFrom isDelimiter stack previous text).map unbroken := by
  induction text generalizing stack previous with
  | nil => rfl
  | cons c rest ih =>
      have onward := ih (step stack previous c rest.head?) (some c)
      rw [Option.map_some] at onward
      rw [unbroken_cons, slicesFrom, slicesFrom, head?_unbroken, step_flat, onward,
        apply_flat same]
      split
      · rfl
      · exact (map_unbroken_consFirst c _).symm

theorem splitCommas_unbroken (text : List Char) :
    splitCommas (unbroken text) = (splitCommas text).map unbroken := by
  have slices_eq : slices (· = ',') (unbroken text) = (slices (· = ',') text).map unbroken :=
    slicesFrom_unbroken rfl [] none text
  have trimmed : trim ∘ unbroken = unbroken ∘ trim := funext trim_unbroken
  rw [splitCommas, splitCommas, splitWhere, splitWhere, slices_eq, List.map_map, trimmed,
    ← List.map_map, List.filter_map]
  have kept : (fun part : List Char => decide (part ≠ [])) ∘ unbroken =
      fun part => decide (part ≠ []) := by
    funext part
    cases part <;> rfl
  rw [kept]

theorem closeBrace?_unbroken (depth : Nat) (text : List Char) :
    closeBrace? depth (unbroken text) =
      (closeBrace? depth text).map fun (inner, after) => (unbroken inner, unbroken after) := by
  induction text generalizing depth with
  | nil => rfl
  | cons c rest ih =>
      by_cases closes : c = '}'
      · rw [closes]
        cases depth with
        | zero => rfl
        | succ outer =>
            have flat_eq : flat '}' = '}' := rfl
            rw [unbroken_cons, flat_eq, closeBrace?_cons_close, closeBrace?_cons_close, ih,
              Option.map_map, Option.map_map]
            rfl
      · have not_closer : flat c ≠ '}' := flat_ne closes (by decide)
        have level : ImplBlock.depthAfter depth [flat c] = ImplBlock.depthAfter depth [c] :=
          apply_flat (p := fun c => ImplBlock.depthAfter depth [c]) rfl c
        rw [unbroken_cons, closeBrace?_cons_of_ne depth not_closer,
          closeBrace?_cons_of_ne depth closes, level, ih, Option.map_map, Option.map_map]
        rfl

end Bracket
end SorobanLint
