import SorobanLint.Bracket.Split
import SorobanLint.Text.Lines
import SorobanLint.Text.Word
import Mathlib

/-!
# Runs of characters

The runs of a text between the characters in `p` are its pieces that are not empty; a character in
`p` parts the runs in front of it from those behind it (`runs_append_cons`).  A text whose blanks
are single spaces between other characters is left alone by trimming and squeezing.
-/

namespace SorobanLint
namespace Text

variable {p : Char → Bool} {c : Char} {s t : List Char}

/-- What holds of all characters of a text one by one; deciding `∀ c ∈ s, q c` at once would run
through every character there is. -/
theorem forall_mem_of_all {q : Char → Prop} [DecidablePred q] (all : s.all (q ·) = true) :
    ∀ c ∈ s, q c :=
  List.all_iff_forall_prop.mp all

/-! ## Characters of identifiers -/

theorem toNat_of_isIdentRest (inside : isIdentRest c = true) :
    (48 ≤ c.toNat ∧ c.toNat ≤ 57) ∨ (65 ≤ c.toNat ∧ c.toNat ≤ 90) ∨ c.toNat = 95 ∨
      (97 ≤ c.toNat ∧ c.toNat ≤ 122) := by
  simp only [isIdentRest, Char.isAlphanum, Char.isAlpha, Char.isUpper, Char.isLower, Char.isDigit,
    Bool.or_eq_true, Bool.and_eq_true, decide_eq_true_eq, ge_iff_le, UInt32.le_iff_toNat_le,
    Char.toNat_val] at inside
  rcases inside with ((upper | lower) | digit) | rfl
  · exact .inr (.inl upper)
  · exact .inr (.inr (.inr lower))
  · exact .inl digit
  · exact .inr (.inr (.inl rfl))

theorem isWord_of_isIdentRest (inside : isIdentRest c = true) : isWord c = true := by
  have ascii : c.toNat < 0x80 := by
    have bounds := toNat_of_isIdentRest inside
    omega
  rwa [isWord, isAlnum, if_pos ascii]

theorem isBlank_of_isIdentRest (inside : isIdentRest c = true) : isBlank c = false := by
  have bounds := toNat_of_isIdentRest inside
  have ascii : c.toNat < 0x80 := by omega
  simp only [isBlank, if_pos ascii, Bool.or_eq_false_iff, Bool.and_eq_false_iff,
    decide_eq_false_iff_not]
  omega

theorem isTerminator_of_isIdentRest (inside : isIdentRest c = true) : isTerminator c = false := by
  have bounds := toNat_of_isIdentRest inside
  simp only [isTerminator, Bool.or_eq_false_iff, Bool.and_eq_false_iff, decide_eq_false_iff_not]
  omega

theorem ne_of_isIdentRest {d : Char} (inside : isIdentRest c = true)
    (outside : isIdentRest d = false) : c ≠ d := by
  rintro rfl
  simp [inside] at outside

theorem isIdentRest_of_isIdentStart (start : isIdentStart c = true) : isIdentRest c = true := by
  simp only [isIdentStart, Bool.or_eq_true, decide_eq_true_eq] at start
  rcases start with letter | rfl
  · simp [isIdentRest, Char.isAlphanum, letter]
  · rfl

/-- An identifier begins with a letter or an underscore and holds nothing else but digits and the
mark of a raw one. -/
theorem exists_of_isIdentifier (identifier : isIdentifier s = true) :
    ∃ c rest, s = c :: rest ∧ isIdentStart c = true ∧ ∀ d ∈ s, isIdentRest d = true ∨ d = '#' := by
  have each {c : Char} {rest : List Char} (plain : (isIdentStart c && rest.all isIdentRest) = true) :
      isIdentStart c = true ∧ ∀ d ∈ c :: rest, isIdentRest d = true := by
    obtain ⟨start, inside⟩ := Bool.and_eq_true_iff.mp plain
    exact ⟨start, List.forall_mem_cons.mpr
      ⟨isIdentRest_of_isIdentStart start, List.all_eq_true.mp inside⟩⟩
  unfold isIdentifier at identifier
  split at identifier
  next c rest =>
    refine ⟨'r', '#' :: c :: rest, rfl, by decide, ?_⟩
    rw [List.forall_mem_cons, List.forall_mem_cons]
    exact ⟨.inl (by decide), .inr rfl, fun d mem => .inl ((each identifier).2 d mem)⟩
  next c rest _ =>
    obtain ⟨start, inside⟩ := each identifier
    exact ⟨c, rest, rfl, start, fun d mem => .inl (inside d mem)⟩
  next => contradiction

theorem not_mem_of_isIdentifier {d : Char} (identifier : isIdentifier s = true)
    (outside : isIdentRest d = false) (other : d ≠ '#') : d ∉ s := by
  obtain ⟨-, -, -, -, inside⟩ := exists_of_isIdentifier identifier
  intro mem
  rcases inside d mem with word | mark
  · simp [word] at outside
  · exact other mark

theorem solid_of_isIdentifier (identifier : isIdentifier s = true) :
    ∀ c ∈ s, isBlank c = false := by
  obtain ⟨-, -, -, -, inside⟩ := exists_of_isIdentifier identifier
  intro c mem
  rcases inside c mem with word | rfl
  · exact isBlank_of_isIdentRest word
  · decide

/-! ## Runs -/

/-- The maximal runs of characters that are not in `p`. -/
def runs (p : Char → Bool) (s : List Char) : List (List Char) :=
  (pieces p s).filter (· ≠ [])

/-- Whether the character stands in no word. -/
def isBreak (c : Char) : Bool := !isWord c

theorem words_eq_runs (s : List Char) : words s = runs isBlank s := rfl

theorem consFirst_append {parts : List (List Char)} (nonempty : parts ≠ [])
    (later : List (List Char)) : consFirst c (parts ++ later) = consFirst c parts ++ later := by
  obtain ⟨piece, rest, rfl⟩ := List.exists_cons_of_ne_nil nonempty
  rfl

theorem pieces_append_cons (parts : p c = true) (s t : List Char) :
    pieces p (s ++ c :: t) = pieces p s ++ pieces p t := by
  induction s with
  | nil => simp [pieces, parts]
  | cons d s ih =>
      rw [List.cons_append, pieces, pieces, ih]
      split
      · rfl
      · exact consFirst_append (pieces_ne_nil p s) _

/-- A character in `p` parts the runs in front of it from those behind it. -/
theorem runs_append_cons (parts : p c = true) (s t : List Char) :
    runs p (s ++ c :: t) = runs p s ++ runs p t := by
  rw [runs, pieces_append_cons parts, List.filter_append]
  rfl

theorem runs_cons (parts : p c = true) (t : List Char) : runs p (c :: t) = runs p t :=
  runs_append_cons parts [] t

theorem runs_concat (parts : p c = true) (s : List Char) : runs p (s ++ [c]) = runs p s := by
  rw [runs_append_cons parts, List.append_right_eq_self]
  rfl

theorem pieces_of_forall (solid : ∀ c ∈ s, p c = false) : pieces p s = [s] := by
  induction s with
  | nil => rfl
  | cons c s ih =>
      rw [List.forall_mem_cons] at solid
      simp [pieces, solid.1, ih solid.2, consFirst]

theorem runs_of_forall (solid : ∀ c ∈ s, p c = false) (nonempty : s ≠ []) : runs p s = [s] := by
  simp [runs, pieces_of_forall solid, nonempty]

/-! ## Single spaces -/

/-- A text whose blanks are single spaces between other characters. -/
inductive Spaced : List Char → Prop where
  | single {c : Char} (solid : isBlank c = false) : Spaced [c]
  | cons {c : Char} {s : List Char} (solid : isBlank c = false) (spaced : Spaced s) :
      Spaced (c :: s)
  | gap {c : Char} {s : List Char} (solid : isBlank c = false) (spaced : Spaced s) :
      Spaced (c :: ' ' :: s)

namespace Spaced

theorem of_forall (solid : ∀ c ∈ s, isBlank c = false) (nonempty : s ≠ []) : Spaced s := by
  induction s with
  | nil => exact absurd rfl nonempty
  | cons c s ih =>
      rw [List.forall_mem_cons] at solid
      cases s with
      | nil => exact .single solid.1
      | cons d s => exact .cons solid.1 (ih solid.2 (List.cons_ne_nil d s))

theorem of_word (word : (s.all (!isBlank ·) && !s.isEmpty) = true) : Spaced s := by
  rw [Bool.and_eq_true, List.all_eq_true, Bool.not_eq_true', List.isEmpty_eq_false_iff] at word
  refine of_forall ?_ word.2
  intro c mem
  exact Bool.not_eq_true' _ ▸ word.1 c mem

theorem append (front : Spaced s) (back : Spaced t) : Spaced (s ++ t) := by
  induction front with
  | single solid => exact .cons solid back
  | cons solid _ ih => exact .cons solid ih
  | gap solid _ ih => exact .gap solid ih

theorem append_space (front : Spaced s) (back : Spaced t) : Spaced (s ++ ' ' :: t) := by
  induction front with
  | single solid => exact .gap solid back
  | cons solid _ ih => exact .cons solid ih
  | gap solid _ ih => exact .gap solid ih

theorem ne_nil (spaced : Spaced s) : s ≠ [] := by
  cases spaced <;> exact List.cons_ne_nil _ _

theorem head_solid (spaced : Spaced s) : ∃ c rest, s = c :: rest ∧ isBlank c = false := by
  cases spaced with
  | single solid => exact ⟨_, _, rfl, solid⟩
  | cons solid _ => exact ⟨_, _, rfl, solid⟩
  | gap solid _ => exact ⟨_, _, rfl, solid⟩

theorem last_solid (spaced : Spaced s) : ∃ front c, s = front ++ [c] ∧ isBlank c = false := by
  induction spaced with
  | single solid => exact ⟨[], _, rfl, solid⟩
  | @cons d s solid spaced ih =>
      obtain ⟨front, c, rfl, last⟩ := ih
      exact ⟨d :: front, c, rfl, last⟩
  | @gap d s solid spaced ih =>
      obtain ⟨front, c, rfl, last⟩ := ih
      exact ⟨d :: ' ' :: front, c, rfl, last⟩

end Spaced

theorem trimStart_cons (solid : isBlank c = false) (s : List Char) :
    trimStart (c :: s) = c :: s := by
  simp [trimStart, solid]

theorem trimEnd_concat (solid : isBlank c = false) (s : List Char) :
    trimEnd (s ++ [c]) = s ++ [c] := by
  simp [trimEnd, dropEndWhile, solid]

theorem trimEnd_concat_blank (blank : isBlank c = true) (s : List Char) :
    trimEnd (s ++ [c]) = trimEnd s := by
  simp [trimEnd, dropEndWhile, blank]

theorem trim_cons_blank (blank : isBlank c = true) (s : List Char) : trim (c :: s) = trim s := by
  rw [trim, trimStart_cons_of_isBlank blank, trim]

theorem trimStart_append_blank {lead : List Char} (blank : ∀ c ∈ lead, isBlank c = true)
    (s : List Char) : trimStart (lead ++ s) = trimStart s := by
  rw [trimStart, List.dropWhile_append_of_pos blank]
  rfl

theorem trim_append_blank {lead : List Char} (blank : ∀ c ∈ lead, isBlank c = true)
    (s : List Char) : trim (lead ++ s) = trim s := by
  rw [trim, trimStart_append_blank blank, trim]

theorem Spaced.trimStart_eq (spaced : Spaced s) : trimStart s = s := by
  obtain ⟨c, rest, rfl, solid⟩ := spaced.head_solid
  exact trimStart_cons solid rest

theorem Spaced.trimEnd_eq (spaced : Spaced s) : trimEnd s = s := by
  obtain ⟨front, c, rfl, solid⟩ := spaced.last_solid
  exact trimEnd_concat solid front

theorem Spaced.trim_eq (spaced : Spaced s) : trim s = s := by
  rw [trim, spaced.trimStart_eq, spaced.trimEnd_eq]

theorem Spaced.trim_concat_blank (spaced : Spaced s) (blank : isBlank c = true) :
    trim (s ++ [c]) = s := by
  obtain ⟨d, rest, rfl, solid⟩ := spaced.head_solid
  rw [trim, List.cons_append, trimStart_cons solid, ← List.cons_append, trimEnd_concat_blank blank,
    spaced.trimEnd_eq]

theorem runs_cons_cons {d : Char} (first : p c = false) (second : p d = false) (s : List Char) :
    runs p (c :: d :: s) = consFirst c (runs p (d :: s)) := by
  obtain ⟨piece, rest, pieces_eq⟩ := List.exists_cons_of_ne_nil (pieces_ne_nil p s)
  simp [runs, pieces, first, second, pieces_eq, consFirst]

theorem words_cons_ne_nil (solid : isBlank c = false) (s : List Char) : words (c :: s) ≠ [] := by
  obtain ⟨piece, rest, pieces_eq⟩ := List.exists_cons_of_ne_nil (pieces_ne_nil isBlank s)
  simp [words, pieces, solid, pieces_eq, consFirst]

theorem squeeze_cons_cons {d : Char} (first : isBlank c = false) (second : isBlank d = false)
    (s : List Char) : squeeze (c :: d :: s) = c :: squeeze (d :: s) := by
  rw [squeeze, words_eq_runs, runs_cons_cons first second, ← words_eq_runs,
    Bracket.intercalate_consFirst _ _ (words_cons_ne_nil second s), ← squeeze]

theorem words_of_solid (solid : isBlank c = false) : words [c] = [[c]] :=
  runs_of_forall (List.forall_mem_singleton.mpr solid) (List.cons_ne_nil c [])

theorem words_cons_gap {d : Char} (solid : isBlank c = false) (blank : isBlank d = true)
    (s : List Char) : words (c :: d :: s) = [c] :: words s := by
  rw [words_eq_runs, words_eq_runs, ← List.singleton_append, runs_append_cons blank,
    ← words_eq_runs, words_of_solid solid]
  rfl

theorem squeeze_cons_gap {d : Char} (solid : isBlank c = false) (blank : isBlank d = true)
    (s : List Char) :
    squeeze (c :: d :: s) = if words s = [] then [c] else c :: ' ' :: squeeze s := by
  rw [squeeze, words_cons_gap solid blank]
  split
  next nothing =>
    rw [nothing]
    rfl
  next some_words =>
    obtain ⟨word, more, words_eq⟩ := List.exists_cons_of_ne_nil some_words
    rw [words_eq, List.intercalate_cons_cons, ← words_eq, ← squeeze]
    rfl

/-- Squeezing leaves a text alone that has only single spaces between other characters. -/
theorem Spaced.squeeze_eq (spaced : Spaced s) : squeeze s = s := by
  induction spaced with
  | single solid => simp [squeeze, words, pieces, solid, consFirst]
  | cons solid spaced ih =>
      obtain ⟨d, rest, rfl, next_solid⟩ := spaced.head_solid
      rw [squeeze_cons_cons solid next_solid, ih]
  | gap solid spaced ih =>
      obtain ⟨d, rest, rfl, next_solid⟩ := spaced.head_solid
      rw [squeeze_cons_gap solid (by decide), if_neg (words_cons_ne_nil next_solid rest), ih]

theorem squeeze_cons_blank (blank : isBlank c = true) (s : List Char) :
    squeeze (c :: s) = squeeze s := by
  rw [squeeze, words_eq_runs, runs_cons blank, squeeze, words_eq_runs]

theorem squeeze_concat_blank (blank : isBlank c = true) (s : List Char) :
    squeeze (s ++ [c]) = squeeze s := by
  rw [squeeze, words_eq_runs, runs_concat blank, squeeze, words_eq_runs]

theorem upTo_of_forall {d : Char} {marker : List Char} (absent : ∀ c ∈ s, c ≠ d) :
    upTo (d :: marker) s = s := by
  induction s with
  | nil => rfl
  | cons c s ih =>
      rw [List.forall_mem_cons] at absent
      have other : (d == c) = false := beq_eq_false_iff_ne.mpr absent.1.symm
      rw [upTo, List.isPrefixOf_cons_cons, other, ih absent.2]
      rfl

theorem dropEndWhile_eq (kept : ∀ c ∈ s.getLast?, p c = false) : dropEndWhile p s = s := by
  rcases List.eq_nil_or_concat s with rfl | ⟨front, c, rfl⟩
  · rfl
  · rw [List.concat_eq_append, List.getLast?_concat] at kept
    simp [dropEndWhile, kept c rfl]

end Text
end SorobanLint
