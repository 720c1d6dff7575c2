import SorobanLint.Proofs.Brackets.Split
import SorobanLint.Proofs.Findings
import SorobanLint.Proofs.Handlers
import SorobanLint.Proofs.Nesting
import SorobanLint.Proofs.Reads

/-!
# Shorthand keys of struct literals

A struct literal initialises each field by an expression or names it alone.  An expression that no
comma outside brackets parts is not cut by the split at commas, whatever comparisons, shifts and
calls stand in it, so the parts are the entries of the literal
(`StructLiteral.mem_splitCommas_iff`).  A field is used by the literal exactly if one of the entries
names it alone (`StructLiteral.isUsed_iff`).
-/

namespace SorobanLint

open Text

/-- A separator between two texts stands in one of them, on one side of their border. -/
theorem cut_append {α : Type} {s t front back : List α} {d : α}
    (whole : s ++ t = front ++ d :: back) :
    (∃ more, s = front ++ d :: more ∧ back = more ++ t) ∨
      ∃ more, front = s ++ more ∧ t = more ++ d :: back := by
  rcases List.append_eq_append_iff.mp whole with ⟨more, front_eq, t_eq⟩ | ⟨more, rfl, back_eq⟩
  · exact .inr ⟨more, front_eq, t_eq⟩
  · cases more with
    | nil => exact .inr ⟨[], by simp, back_eq.symm⟩
    | cons e more =>
        obtain ⟨rfl, rfl⟩ := List.cons.inj back_eq
        exact .inl ⟨more, rfl, rfl⟩

/-- A statement about what stands in front of each occurrence of a separator can be checked. -/
theorem forall_cut_iff {α : Type} {text : List α} {d : α} {p : List α → Prop} :
    (∀ front back, text = front ++ d :: back → p front) ↔
      ∀ n < text.length, text[n]? = some d → p (text.take n) := by
  constructor
  · intro cuts n _ here
    obtain ⟨within, rfl⟩ := List.getElem?_eq_some_iff.mp here
    refine cuts _ (text.drop (n + 1)) ?_
    rw [List.getElem_cons_drop within, List.take_append_drop]
  · rintro cuts front back rfl
    have there := cuts front.length (by simp) (by simp)
    rwa [List.take_left] at there

/-! ## Texts that the split at commas leaves whole -/

/-- A visit that no split at commas takes for the end of a part. -/
def Visit.Joins (visit : Visit) : Prop :=
  visit.char = ',' → visit.before ≠ []

namespace Bracket

variable {stack after : List Bracket} {previous next : Option Char} {c : Char}
  {s t text rest : List Char}

/-- The real brackets of the text pair up, no comma stands outside of them, and each `<` stands
behind a blank. -/
structure Uncut (text : List Char) : Prop where
  nested : WellNested text
  comma_inside : ∀ front back, text = front ++ ',' :: back → ¬WellNested front
  angle_spaced : ∀ front back, text = front ++ '<' :: back → front.getLast?.any isBlank = true

theorem real_eq_self (angleless : angle ∉ stack) : real stack = stack := by
  refine List.filter_eq_self.mpr ?_
  intro kind mem
  refine decide_eq_true ?_
  rintro rfl
  exact angleless mem

theorem dropAngle_eq_self (angleless : angle ∉ stack) : dropAngle stack = stack := by
  fun_cases dropAngle stack with
  | case1 => simp at angleless
  | case2 => rfl

/-- A `<` behind a blank opens nothing. -/
theorem opensAngle_of_blank (blank : isBlank c = true) (next : Option Char) :
    opensAngle (some c) next = false := by
  have colon : c ≠ ':' := ne_of_isBlank blank (by decide)
  simp [opensAngle, isWord_of_isBlank blank, colon]

/-- If no `<` opens anything, the stack of a walk holds real brackets only. -/
theorem angle_notMem_step (angleless : angle ∉ stack)
    (spaced : c = '<' → previous.any isBlank = true) : angle ∉ step stack previous c next := by
  by_cases less : c = '<'
  · obtain ⟨b, rfl, blank⟩ := (Option.any_eq_true _ _).mp (spaced less)
    rwa [step, if_pos less, opensAngle_of_blank blank, if_neg Bool.false_ne_true]
  rw [step, if_neg less]
  split
  · rwa [dropAngle_eq_self angleless, ite_self]
  · cases opens : opened? c with
    | some kind =>
        have real_kind : angle ≠ kind := by
          rcases eq_of_opened? opens with ⟨-, rfl⟩ | ⟨-, rfl⟩ | ⟨-, rfl⟩ <;> decide
        exact List.not_mem_cons_of_ne_of_not_mem real_kind angleless
    | none =>
        cases closed? c with
        | none => exact angleless
        | some kind =>
            have dropped : angle ∉ dropAngles stack :=
              fun mem => angleless ((List.dropWhile_suffix _).subset mem)
            dsimp only
            split
            · exact fun mem => dropped (List.mem_of_mem_tail mem)
            · exact dropped

/-- A walk across a text whose closers are right, in which each `<` stands behind a blank, meets no
comma with nothing open if the real brackets leave none outside. -/
theorem crosses_of_realRun? (angleless : angle ∉ stack) (run : realRun? stack text = some after)
    (comma_inside : ∀ front back, text = front ++ ',' :: back → realRun? stack front ≠ some [])
    (angle_spaced : ∀ front back, text = front ++ '<' :: back →
      (front.getLast?.or previous).any isBlank = true) (rest : List Char) :
    Crosses Visit.Joins stack previous text rest after (text.getLast?.or previous) := by
  induction text generalizing stack previous with
  | nil =>
      obtain rfl := Option.some.inj run
      exact .nil
  | cons c text ih =>
      have kept : angle ∉ step stack previous c (text ++ rest).head? := by
        refine angle_notMem_step angleless ?_
        rintro rfl
        exact angle_spaced [] text rfl
      rw [realRun?, Option.bind_eq_some_iff] at run
      obtain ⟨middle, step_eq, run⟩ := run
      have middle_eq : step stack previous c (text ++ rest).head? = middle := by
        have real_eq := realStep?_real stack previous c (text ++ rest).head?
        rw [real_eq_self angleless, real_eq_self kept, step_eq] at real_eq
        split at real_eq
        · contradiction
        · exact (Option.some.inj real_eq).symm
      have last_eq (s : List Char) : (c :: s).getLast?.or previous = s.getLast?.or (some c) := by
        rw [List.getLast?_cons, Option.or_some, Option.some_or]
      rw [last_eq]
      refine .cons ?_ (middle_eq ▸ ih (middle_eq ▸ kept) run ?_ ?_)
      · rintro comma rfl
        exact comma_inside [] text (congrArg (· :: text) comma) rfl
      · intro front back text_eq onward
        refine comma_inside (c :: front) back (congrArg (c :: ·) text_eq) ?_
        rw [realRun?, step_eq, Option.bind_some, onward]
      · intro front back text_eq
        have spaced := angle_spaced (c :: front) back (congrArg (c :: ·) text_eq)
        rwa [last_eq] at spaced

namespace Uncut

theorem crosses (uncut : Uncut text) (previous : Option Char) (rest : List Char) :
    Crosses Visit.Joins [] previous text rest [] (text.getLast?.or previous) := by
  refine crosses_of_realRun? List.not_mem_nil (uncut.nested.realRun?_eq []) ?_ ?_ rest
  · intro front back text_eq run
    exact uncut.comma_inside front back text_eq (wellNested_iff.mpr run)
  · intro front back text_eq
    obtain ⟨c, last, blank⟩ :=
      (Option.any_eq_true _ _).mp (uncut.angle_spaced front back text_eq)
    rwa [last]

theorem misses (visit : Visit) (joins : visit.Joins) :
    (decide (visit.char = ',') && visit.before.isEmpty) = false := by
  rw [Bool.and_eq_false_iff, decide_eq_false_iff_not, List.isEmpty_eq_false_iff]
  exact Decidable.not_or_of_imp joins

/-- The split at commas goes on behind the comma that follows the text. -/
theorem slicesFrom_comma (uncut : Uncut text) (previous : Option Char) (rest : List Char) :
    slicesFrom (· = ',') [] previous (text ++ ',' :: rest) =
      text :: slicesFrom (· = ',') [] (some ',') rest := by
  have cut : slicesFrom (· = ',') [] (text.getLast?.or previous) (',' :: rest) =
      [] :: slicesFrom (· = ',') [] (some ',') rest := rfl
  rw [(uncut.crosses previous (',' :: rest)).slicesFrom_eq _ misses, cut, foldr_consFirst,
    List.append_nil]

theorem slicesFrom_eq (uncut : Uncut text) (previous : Option Char) :
    slicesFrom (· = ',') [] previous text = [text] := by
  have whole := (uncut.crosses previous []).slicesFrom_eq (· = ',') misses
  rwa [List.append_nil, slicesFrom, foldr_consFirst, List.append_nil] at whole

/-- The slices of texts with a comma behind each but the last are the texts. -/
theorem slices_eq {texts : List (List Char)} {last : List Char} (uncut : ∀ text ∈ texts, Uncut text)
    (last_uncut : Uncut last) :
    slices (· = ',') (texts.flatMap (· ++ [',']) ++ last) = texts ++ [last] := by
  rw [slices]
  generalize none = previous
  induction texts generalizing previous with
  | nil => exact last_uncut.slicesFrom_eq previous
  | cons text texts ih =>
      rw [List.forall_mem_cons] at uncut
      rw [List.flatMap_cons, List.append_assoc, List.append_assoc, List.singleton_append,
        uncut.1.slicesFrom_comma, ih uncut.2, List.cons_append]

theorem iff_take : Uncut text ↔ WellNested text ∧
    (∀ n < text.length, text[n]? = some ',' → ¬WellNested (text.take n)) ∧
    ∀ n < text.length, text[n]? = some '<' → (text.take n).getLast?.any isBlank = true := by
  have commas := @forall_cut_iff _ text ',' fun front => ¬WellNested front
  have angles := @forall_cut_iff _ text '<' fun front => front.getLast?.any isBlank = true
  rw [← commas, ← angles]
  exact ⟨fun ⟨nested, inside, spaced⟩ => ⟨nested, inside, spaced⟩,
    fun ⟨nested, inside, spaced⟩ => ⟨nested, inside, spaced⟩⟩

instance (text : List Char) : Decidable (Uncut text) :=
  decidable_of_iff _ iff_take.symm

/-- A text without brackets and commas is left whole. -/
theorem of_plain (plain : ∀ c ∈ text, isQuiet c = true ∧ c ≠ ',') : Uncut text where
  nested := by
    induction text with
    | nil => exact .nil
    | cons c text ih =>
        rw [List.forall_mem_cons] at plain
        have quiet := plain.1.1
        simp only [isQuiet, Bool.not_eq_true', List.contains_eq_mem, decide_eq_false_iff_not,
          String.reduceToList, List.mem_cons, List.not_mem_nil, or_false, not_or] at quiet
        exact .other (by simp [opened?, quiet]) (by simp [closed?, quiet]) (ih plain.2)
  comma_inside := by
    rintro front back rfl
    have comma := (plain ',' (by simp)).2
    contradiction
  angle_spaced := by
    rintro front back rfl
    have less := (plain '<' (by simp)).1
    contradiction

theorem append (front : Uncut s) (back : Uncut t) : Uncut (s ++ t) where
  nested := front.nested.append_iff.mpr back.nested
  comma_inside := by
    intro left right whole
    rcases cut_append whole with ⟨more, s_eq, -⟩ | ⟨more, rfl, t_eq⟩
    · exact front.comma_inside left more s_eq
    · rw [front.nested.append_iff]
      exact back.comma_inside more right t_eq
  angle_spaced := by
    intro left right whole
    rcases cut_append whole with ⟨more, s_eq, -⟩ | ⟨more, rfl, t_eq⟩
    · exact front.angle_spaced left more s_eq
    · obtain ⟨c, last, blank⟩ :=
        (Option.any_eq_true _ _).mp (back.angle_spaced more right t_eq)
      rwa [List.getLast?_append, last]

end Uncut
end Bracket

/-! ## Accesses through an instance -/

namespace UnusedState

variable {field s t text : List Char} {c : Char}

/-- The text names an instance, by itself, and accesses something through it. -/
inductive Accesses : List Char → Prop where
  | mk {front name gap back : List Char} (outside : ∀ c ∈ front.getLast?, isWord c = false)
      (is_instance : name ∈ instances.map (·.toList)) (gap_blank : ∀ c ∈ gap, isBlank c = true) :
      Accesses (front ++ (name ++ gap ++ '.' :: back))

theorem word_of_instance (is_instance : s ∈ instances.map (·.toList)) :
    s ≠ [] ∧ ∀ c ∈ s, isWord c = true := by
  have words : (instances.map (·.toList)).all (fun s => !s.isEmpty && s.all isWord) = true := by
    decide
  simpa using List.all_eq_true.mp words s is_instance

theorem accesses_of_occursIn (occurs : (access field).occursIn text = true) : Accesses text := by
  obtain ⟨front, _, after, rfl, _, _, rfl, ⟨rfl, edge⟩, name, _, rfl, name_reads, gap, _, rfl,
    gap_blank, _, back, rfl, rfl, -⟩ := (Pattern.occursIn_iff text).mp occurs
  have is_instance : name ∈ instances.map (·.toList) := by
    simpa [Pattern.oneOf, Pattern.Reads, instances] using name_reads
  obtain ⟨nonempty, inside⟩ := word_of_instance is_instance
  obtain ⟨c, rest, rfl⟩ := List.exists_cons_of_ne_nil nonempty
  have outside : ∀ c ∈ front.getLast?, isWord c = false := by
    intro d last
    have first := inside c List.mem_cons_self
    simpa [Place.atWordEdge, first, Option.mem_def.mp last] using edge
  have accesses : Accesses (front ++ (c :: rest ++ gap ++ '.' :: (back ++ after))) :=
    .mk outside is_instance gap_blank
  simpa using accesses

namespace Accesses

theorem dot_mem (accesses : Accesses text) : '.' ∈ text := by
  cases accesses
  simp

/-- No access goes on over a character that stands in no name and in no gap. -/
theorem of_append_cons (solid : isBlank c = false) (no_word : isWord c = false) (no_dot : c ≠ '.')
    (accesses : Accesses (s ++ c :: t)) : Accesses s ∨ Accesses t := by
  generalize whole : s ++ c :: t = text at accesses
  cases accesses with
  | @mk front name gap back outside is_instance gap_blank =>
      rcases cut_append whole.symm with ⟨more, rfl, rfl⟩ | ⟨more, rfl, rest_eq⟩
      · refine .inr (.mk ?_ is_instance gap_blank)
        intro d last
        refine outside d ?_
        rw [List.getLast?_append, List.getLast?_cons, Option.mem_def.mp last]
        rfl
      · rcases cut_append rest_eq with ⟨behind, inside, -⟩ | ⟨behind, rfl, dot_eq⟩
        · have mem : c ∈ name ++ gap := by simp [inside]
          rcases List.mem_append.mp mem with mem | mem
          · simp [(word_of_instance is_instance).2 c mem] at no_word
          · simp [gap_blank c mem] at solid
        · cases behind with
          | nil => exact absurd (List.cons.inj dot_eq).1.symm no_dot
          | cons d behind =>
              obtain ⟨rfl, -⟩ := List.cons.inj dot_eq
              exact .inl (.mk outside is_instance gap_blank)

/-- An access names one of the words of the text. -/
theorem exists_word (accesses : Accesses text) :
    ∃ word ∈ runs isBreak text, word ∈ instances.map (·.toList) := by
  cases accesses with
  | @mk front name gap back outside is_instance gap_blank =>
      obtain ⟨nonempty, inside⟩ := word_of_instance is_instance
      refine ⟨name, Pattern.mem_runs_append inside nonempty
        (Pattern.outside_of_getLast? outside) ?_, is_instance⟩
      have behind := edge_of_gap (s := back) (d := '.') (by decide) gap_blank
      rw [List.append_assoc, Pattern.takeWhile_isWord_append inside]
      cases head : (gap ++ '.' :: back).head? with
      | none => rfl
      | some d => exact behind d head

end Accesses
end UnusedState

/-! ## Struct literals -/

/-- Blanks and line breaks, or none. -/
structure Blanks where
  /-- The characters. -/
  chars : List Char
  blank : ∀ c ∈ chars, isBlank c = true

/-- Whether the character can stand in the name of a field, or in the mark that frees a keyword for
use as a name. -/
def isNameChar (c : Char) : Bool :=
  isWord c || c = '#'

/-- The name of a field. -/
structure FieldName where
  /-- The characters. -/
  text : List Char
  nonempty : text ≠ []
  inside : ∀ c ∈ text, isNameChar c = true

/-- The text behind the colon of an explicit initialiser: an expression, with the blanks around it,
that holds no braces and names no instance. -/
structure Initialiser where
  /-- The characters. -/
  text : List Char
  uncut : Bracket.Uncut text
  no_opener : '{' ∉ text
  no_closer : '}' ∉ text
  no_instance : ∀ word ∈ runs isBreak text, word ∉ UnusedState.instances.map (·.toList)

/-- How a struct literal initialises a field. -/
inductive LiteralEntry where
  /-- By the variable of the same name. -/
  | shorthand (lead : Blanks) (name : FieldName) (trail : Blanks)
  /-- By an expression. -/
  | explicit (lead : Blanks) (key : FieldName) (trail : Blanks) (value : Initialiser)

/-- A struct literal that names its type `Self`. -/
structure StructLiteral where
  /-- The blanks in front of the brace. -/
  gap : Blanks
  /-- The entries that a comma follows. -/
  front : List LiteralEntry
  /-- The last entry, or the blanks in its place. -/
  last : LiteralEntry ⊕ Blanks

/-- Whether the character is no blank and stands in no name. -/
def isMark (d : Char) : Bool :=
  !isBlank d && !isNameChar d

section Unmarked

variable {s : List Char} {d : Char}

theorem notMem_of_unmarked (unmarked : ∀ c ∈ s, isMark c = false) (mark : isMark d = true) :
    d ∉ s := by
  intro mem
  exact Bool.false_ne_true ((unmarked d mem).symm.trans mark)

theorem uncut_of_unmarked (unmarked : ∀ c ∈ s, isMark c = false) : Bracket.Uncut s := by
  have marks : ∀ d ∈ ",<>()[]\x7b\x7d".toList, isMark d = true := forall_mem_of_all rfl
  refine .of_plain ?_
  intro c mem
  have apart : c ∉ ",<>()[]\x7b\x7d".toList :=
    fun mark => notMem_of_unmarked unmarked (marks c mark) mem
  simp only [String.reduceToList, List.mem_cons, List.not_mem_nil, or_false, not_or] at apart
  simp [Bracket.isQuiet, apart]

theorem Blanks.unmarked (blanks : Blanks) : ∀ c ∈ blanks.chars, isMark c = false := by
  intro c mem
  simp [isMark, blanks.blank c mem]

end Unmarked

namespace FieldName

/-- The name between blanks. -/
def padded (lead : Blanks) (name : FieldName) (trail : Blanks) : List Char :=
  lead.chars ++ (name.text ++ trail.chars)

theorem unmarked_text (name : FieldName) : ∀ c ∈ name.text, isMark c = false := by
  intro c mem
  simp [isMark, name.inside c mem]

theorem unmarked_padded (lead : Blanks) (name : FieldName) (trail : Blanks) :
    ∀ c ∈ padded lead name trail, isMark c = false := by
  rw [padded, List.forall_mem_append, List.forall_mem_append]
  exact ⟨lead.unmarked, name.unmarked_text, trail.unmarked⟩

theorem spaced (name : FieldName) : Spaced name.text := by
  refine .of_forall ?_ name.nonempty
  intro c mem
  rw [Bool.eq_false_iff]
  intro blank
  have inside := name.inside c mem
  have other : c ≠ '#' := ne_of_isBlank blank (by decide)
  simp [isNameChar, isWord_of_isBlank blank, other] at inside

theorem trim_padded (lead : Blanks) (name : FieldName) (trail : Blanks) :
    trim (padded lead name trail) = name.text := by
  obtain ⟨c, rest, text_eq, solid⟩ := name.spaced.head_solid
  rw [padded, trim_append_blank lead.blank, trim, text_eq, List.cons_append, trimStart_cons solid,
    ← List.cons_append, ← text_eq, trimEnd_append_blank trail.blank, name.spaced.trimEnd_eq]

end FieldName

namespace LiteralEntry

/-- The text of the entry. -/
def text : LiteralEntry → List Char
  | .shorthand lead name trail => name.padded lead trail
  | .explicit lead key trail value => key.padded lead trail ++ ':' :: value.text

/-- The name of the field, if it stands alone. -/
def shorthand? : LiteralEntry → Option (List Char)
  | .shorthand _ name _ => some name.text
  | .explicit .. => none

theorem uncut (entry : LiteralEntry) : Bracket.Uncut entry.text := by
  cases entry with
  | shorthand lead name trail => exact uncut_of_unmarked (name.unmarked_padded lead trail)
  | explicit lead key trail value =>
      have colon : Bracket.Uncut [':'] := .of_plain (by simp [Bracket.isQuiet])
      exact (uncut_of_unmarked (key.unmarked_padded lead trail)).append (colon.append value.uncut)

theorem notMem_text {d : Char} (mark : isMark d = true) (no_colon : d ≠ ':')
    (outside : ∀ value : Initialiser, d ∉ value.text) (entry : LiteralEntry) : d ∉ entry.text := by
  cases entry with
  | shorthand lead name trail => exact notMem_of_unmarked (name.unmarked_padded lead trail) mark
  | explicit lead key trail value =>
      rw [text, List.mem_append, List.mem_cons, not_or, not_or]
      exact ⟨notMem_of_unmarked (key.unmarked_padded lead trail) mark, no_colon, outside value⟩

theorem not_accesses (entry : LiteralEntry) : ¬UnusedState.Accesses entry.text := by
  intro accesses
  cases entry with
  | shorthand lead name trail =>
      exact notMem_of_unmarked (name.unmarked_padded lead trail) rfl accesses.dot_mem
  | explicit lead key trail value =>
      rcases accesses.of_append_cons (by decide) (by decide) (by decide) with in_key | in_value
      · exact notMem_of_unmarked (key.unmarked_padded lead trail) rfl in_key.dot_mem
      · obtain ⟨word, mem, is_instance⟩ := in_value.exists_word
        exact value.no_instance word mem is_instance

/-- Without the blanks around it, the text is a name exactly if that name stands alone. -/
theorem trim_eq_iff (entry : LiteralEntry) (field : FieldName) :
    trim entry.text = field.text ↔ entry.shorthand? = some field.text := by
  cases entry with
  | shorthand lead name trail => rw [text, FieldName.trim_padded, shorthand?, Option.some_inj]
  | explicit lead key trail value =>
      have colon : ':' ∈ trim (text (.explicit lead key trail value)) :=
        exists_mem_trim (by simp [text]) (by decide)
      simp only [shorthand?, reduceCtorEq, iff_false]
      intro same
      rw [same] at colon
      exact notMem_of_unmarked field.unmarked_text rfl colon

end LiteralEntry

namespace StructLiteral

/-- The text behind the last comma. -/
def lastText (literal : StructLiteral) : List Char :=
  literal.last.elim (·.text) (·.chars)

/-- The text between the braces. -/
def inner (literal : StructLiteral) : List Char :=
  (literal.front.map (·.text)).flatMap (· ++ [',']) ++ literal.lastText

/-- The text of the literal. -/
def text (literal : StructLiteral) : List Char :=
  "Self".toList ++ literal.gap.chars ++ '{' :: (literal.inner ++ ['}'])

/-- The entries in order. -/
def entries (literal : StructLiteral) : List LiteralEntry :=
  literal.front ++ literal.last.getLeft?.toList

/-- The names of the fields that stand alone. -/
def shorthands (literal : StructLiteral) : List (List Char) :=
  literal.entries.filterMap (·.shorthand?)

variable (literal : StructLiteral)

/-- What holds of entries and of blanks holds of the text behind the last comma. -/
theorem lastText_of_forall {p : List Char → Prop} (of_entry : ∀ entry : LiteralEntry, p entry.text)
    (of_blanks : ∀ blanks : Blanks, p blanks.chars) : p literal.lastText := by
  rw [lastText]
  cases literal.last with
  | inl entry => exact of_entry entry
  | inr blanks => exact of_blanks blanks

theorem slices_inner :
    Bracket.slices (· = ',') literal.inner = literal.front.map (·.text) ++ [literal.lastText] := by
  refine Bracket.Uncut.slices_eq ?_ ?_
  · simp [LiteralEntry.uncut]
  · exact literal.lastText_of_forall LiteralEntry.uncut fun blanks =>
      uncut_of_unmarked blanks.unmarked

/-- The split at commas finds the name of a field exactly if an entry is that name alone. -/
theorem mem_splitCommas_iff (field : FieldName) :
    field.text ∈ Bracket.splitCommas literal.inner ↔ field.text ∈ literal.shorthands := by
  have front_iff : field.text ∈ (literal.front.map (·.text)).map trim ↔
      field.text ∈ literal.front.filterMap (·.shorthand?) := by
    simp [List.mem_filterMap, LiteralEntry.trim_eq_iff]
  have last_iff : field.text = trim literal.lastText ↔
      field.text ∈ literal.last.getLeft?.toList.filterMap (·.shorthand?) := by
    rw [eq_comm, lastText]
    cases literal.last with
    | inl entry => simp [LiteralEntry.trim_eq_iff]
    | inr blanks =>
        have nothing : trim blanks.chars = [] := by
          have trimmed := trim_append_blank blanks.blank []
          rwa [List.append_nil] at trimmed
        simp [nothing, field.nonempty.symm]
  rw [Bracket.splitCommas, Bracket.splitWhere, slices_inner, List.mem_filter, List.map_append,
    List.mem_append, front_iff, List.map_singleton, List.mem_singleton, last_iff, shorthands,
    entries, List.filterMap_append, List.mem_append]
  exact and_iff_left (by simpa using field.nonempty)

theorem notMem_inner {d : Char} (mark : isMark d = true) (no_colon : d ≠ ':') (no_comma : d ≠ ',')
    (outside : ∀ value : Initialiser, d ∉ value.text) : d ∉ literal.inner := by
  have in_entry := LiteralEntry.notMem_text mark no_colon outside
  rw [inner, List.mem_append, not_or]
  constructor
  · simp [in_entry, no_comma]
  · exact literal.lastText_of_forall (p := (d ∉ ·)) in_entry fun blanks =>
      notMem_of_unmarked blanks.unmarked mark

theorem not_accesses_inner : ¬UnusedState.Accesses literal.inner := by
  rw [inner]
  induction literal.front with
  | nil =>
      exact literal.lastText_of_forall (p := (¬UnusedState.Accesses ·)) LiteralEntry.not_accesses
        fun blanks accesses => notMem_of_unmarked blanks.unmarked rfl accesses.dot_mem
  | cons entry front ih =>
      intro accesses
      rw [List.map_cons, List.flatMap_cons, List.append_assoc, List.append_assoc] at accesses
      rcases accesses.of_append_cons (by decide) (by decide) (by decide) with here | later
      · exact entry.not_accesses here
      · exact ih later

theorem not_accesses : ¬UnusedState.Accesses literal.text := by
  intro accesses
  rcases accesses.of_append_cons (by decide) (by decide) (by decide) with in_head | accesses
  · have dot := in_head.dot_mem
    rw [List.mem_append] at dot
    exact dot.elim (by decide) (notMem_of_unmarked literal.gap.unmarked rfl)
  · rcases accesses.of_append_cons (by decide) (by decide) (by decide) with inside | behind
    · exact literal.not_accesses_inner inside
    · exact absurd behind.dot_mem List.not_mem_nil

end StructLiteral

/-! ## The search for a literal -/

/-- A pattern that begins a text is found in it. -/
theorem Pattern.exists_mem_findAll {pattern : Pattern} {text : List Char}
    (head : pattern.isHeadOf text = true) (nonempty : text ≠ []) :
    ∃ found, found ∈ pattern.findAll text := by
  obtain ⟨found, matched⟩ := Option.isSome_iff_exists.mp head
  obtain ⟨c, rest, rfl⟩ := List.exists_cons_of_ne_nil nonempty
  have here : pattern.matchAt? ⟨[], c :: rest⟩ = some found := matched
  refine ⟨found, ?_⟩
  rw [findAll, findFrom, here]
  exact List.mem_cons_self

namespace UnusedState

variable {struct before s after : List Char} {found : Match}

theorem exists_of_reads_literal (reads : (literal struct).Reads before s after) :
    ∃ front, s = front ++ ['{'] := by
  obtain ⟨edge, _, rfl, -, name, _, rfl, -, gap, _, rfl, -, brace, _, rfl, rfl, rfl⟩ := reads
  exact ⟨edge ++ (name ++ gap), by simp⟩

end UnusedState

namespace StructLiteral

variable (literal : StructLiteral) {struct : List Char} {found : Match}

theorem isHeadOf_text (struct : List Char) :
    (UnusedState.literal struct).isHeadOf literal.text = true := by
  have behind_self : (Pattern.all [.spaces, "\x7b"]).Reads ("Self".toList.reverse ++ [])
      (literal.gap.chars ++ ['{']) (literal.inner ++ ['}']) :=
    ⟨literal.gap.chars, ['{'], rfl, literal.gap.blank, ['{'], [], rfl, rfl, rfl⟩
  rw [Pattern.isHeadOf_iff]
  refine ⟨"Self".toList ++ (literal.gap.chars ++ ['{']), literal.inner ++ ['}'], ?_, ?_⟩
  · simp only [text, List.append_assoc, List.singleton_append]
  · exact ⟨[], _, rfl, ⟨rfl, rfl⟩, "Self".toList, _, rfl, .inl rfl, behind_self⟩

theorem braceless_front : '{' ∉ "Self".toList ++ literal.gap.chars := by
  rw [List.mem_append, not_or]
  exact ⟨by decide, notMem_of_unmarked literal.gap.unmarked rfl⟩

theorem braceless_inner : '{' ∉ literal.inner ∧ '}' ∉ literal.inner :=
  ⟨literal.notMem_inner rfl (by decide) (by decide) Initialiser.no_opener,
    literal.notMem_inner rfl (by decide) (by decide) Initialiser.no_closer⟩

/-- Every match begins in front of the only brace that opens, and ends behind it. -/
theorem of_mem_findAll (mem : found ∈ (UnusedState.literal struct).findAll literal.text) :
    found.start.textBefore <+: "Self".toList ++ literal.gap.chars ∧
      found.stop.after = literal.inner ++ ['}'] := by
  have inside := Pattern.in_of_mem_findAll mem
  obtain ⟨-, s, start_after, -, reads⟩ :=
    Pattern.exists_of_matchAt? (Pattern.matchAt?_of_mem_findAll mem)
  obtain ⟨front, rfl⟩ := UnusedState.exists_of_reads_literal reads
  have whole : "Self".toList ++ literal.gap.chars ++ '{' :: (literal.inner ++ ['}']) =
      (found.start.textBefore ++ front) ++ '{' :: found.stop.after := by
    rw [Place.In, start_after, text] at inside
    rw [← inside]
    simp only [List.append_assoc, List.singleton_append]
  have braceless_rest : '{' ∉ literal.inner ++ ['}'] := by
    simpa using literal.braceless_inner.1
  obtain ⟨front_eq, -, rest_eq⟩ :=
    (List.append_cons_inj_of_notMem literal.braceless_front braceless_rest).mp whole
  rw [front_eq]
  exact ⟨List.prefix_append _ _, rest_eq.symm⟩

/-- No arrow stands in front of a match. -/
theorem behindArrow_eq_false
    (mem : found ∈ (UnusedState.literal struct).findAll literal.text) :
    UnusedState.behindArrow found.start = false := by
  obtain ⟨leading, -⟩ := literal.of_mem_findAll mem
  have headless : '>' ∉ found.start.before.dropWhile isBlank := by
    intro mem
    have in_front := leading.subset (List.mem_reverse.mpr ((List.dropWhile_suffix _).subset mem))
    rw [List.mem_append] at in_front
    exact in_front.elim (by decide) (notMem_of_unmarked literal.gap.unmarked rfl)
  rw [UnusedState.behindArrow]
  split
  next before_eq => simp [before_eq] at headless
  next => rfl

theorem hasShorthand_eq (field : List Char)
    (mem : found ∈ (UnusedState.literal struct).findAll literal.text) :
    UnusedState.hasShorthand field found =
      (Bracket.splitCommas literal.inner).contains field := by
  have nested : Bracket.Nested literal.inner :=
    .of_braceless literal.braceless_inner.1 literal.braceless_inner.2
  rw [UnusedState.hasShorthand, literal.behindArrow_eq_false mem, (literal.of_mem_findAll mem).2,
    nested.closeBrace?_eq]
  rfl

/-- A struct literal uses exactly the fields that it names alone, whatever expressions initialise
the others. -/
theorem isUsed_iff (literal : StructLiteral) (struct : List Char) (field : FieldName) :
    UnusedState.isUsed struct field.text literal.text = true ↔
      field.text ∈ literal.shorthands := by
  have no_access : (UnusedState.access field.text).occursIn literal.text = false := by
    rw [Bool.eq_false_iff]
    exact fun occurs => literal.not_accesses (UnusedState.accesses_of_occursIn occurs)
  have text_ne_nil : literal.text ≠ [] := by simp [text]
  obtain ⟨found, found_mem⟩ := Pattern.exists_mem_findAll (literal.isHeadOf_text struct) text_ne_nil
  rw [UnusedState.isUsed, no_access, Bool.false_or, List.any_eq_true, ← mem_splitCommas_iff]
  constructor
  · rintro ⟨found, mem, shorthand⟩
    rw [literal.hasShorthand_eq field.text mem] at shorthand
    simpa using shorthand
  · intro mem
    refine ⟨found, found_mem, ?_⟩
    rw [literal.hasShorthand_eq field.text found_mem]
    simpa using mem

/-- A comparison and a call in front of a shorthand key. -/
theorem isUsed_iff_comparison :
    let space : Blanks := ⟨[' '], List.all_eq_true.mp rfl⟩
    let nothing : Blanks := ⟨[], nofun⟩
    let ready : FieldName := ⟨"ready".toList, by decide, List.all_eq_true.mp (by decide)⟩
    let owner : FieldName := ⟨"owner".toList, by decide, List.all_eq_true.mp (by decide)⟩
    let value : Initialiser := ⟨" f(a, [b]) < c".toList, by decide, by decide, by decide, by decide⟩
    let literal : StructLiteral :=
      ⟨space, [.explicit space ready nothing value], .inl (.shorthand space owner space)⟩
    literal.text = "Self \x7b ready: f(a, [b]) < c, owner \x7d".toList ∧
      UnusedState.isUsed "Gate".toList owner.text literal.text = true ∧
      ¬UnusedState.isUsed "Gate".toList ready.text literal.text = true := by
  intro space nothing ready owner value literal
  refine ⟨by decide, ?_, ?_⟩
  · exact (isUsed_iff literal "Gate".toList owner).mpr (by decide)
  · exact fun used => absurd ((isUsed_iff literal "Gate".toList ready).mp used) (by decide)

end StructLiteral

end SorobanLint
