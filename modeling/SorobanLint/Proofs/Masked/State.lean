import SorobanLint.Proofs.Blanks
import SorobanLint.Proofs.Render.Header

/-!
# The state in which a line begins

Only block comments and string literals reach over the end of a line (`Mask.behind_code`), and a
line that begins inside a string literal shows the closing quote before any code.  So no function
header is seen on such a line (`Mask.isHeadOf_line_string`).
-/

namespace SorobanLint

open Text

namespace Mask

/-! ## Literals end on their line

The length of a character literal is the offset of the quote that closes it. -/

theorem get_of_codePointLength? {s : List Char} {n : Nat} (found : codePointLength? s = some n) :
    s[n + 1]? = some '\'' := by
  induction s generalizing n with
  | nil => contradiction
  | cons c rest ih =>
      rw [codePointLength?] at found
      split at found
      · obtain ⟨m, inner, rfl⟩ := Option.map_eq_some_iff.mp found
        exact ih inner
      · split at found
        next closing =>
          obtain rfl := Option.some.inj found
          simp only [Bool.and_eq_true, decide_eq_true_eq] at closing
          rw [List.getElem?_cons_succ, ← List.head?_eq_getElem?, closing.2]
        next => contradiction

theorem get_of_escapeLength? {s : List Char} {n : Nat} (found : escapeLength? s = some n) :
    s[n]? = some '\'' := by
  simp only [escapeLength?, Option.orElse_eq_orElse, Option.orElse_eq_or,
    Option.or_eq_some_iff] at found
  rcases found with byteEscape | ⟨-, codePoint | ⟨-, single⟩⟩
  · split at byteEscape
    · split at byteEscape
      · obtain rfl := Option.some.inj byteEscape
        rfl
      · contradiction
    · contradiction
  · split at codePoint
    next digits =>
      split at codePoint
      next m inner =>
        obtain rfl := Option.some.inj codePoint
        have closing := get_of_codePointLength? inner
        rwa [List.getElem?_cons_succ, List.getElem?_cons_succ]
      next => contradiction
    next => contradiction
  · split at single
    · split at single
      · contradiction
      · obtain rfl := Option.some.inj single
        rfl
    · contradiction

theorem get_of_literalLength? {s : List Char} {n : Nat} (found : literalLength? s = some n) :
    s[n]? = some '\'' := by
  cases s with
  | nil => contradiction
  | cons c rest =>
      rw [literalLength?] at found
      split at found
      · obtain ⟨m, inner, rfl⟩ := Option.map_eq_some_iff.mp found
        have closing := get_of_escapeLength? inner
        rwa [List.getElem?_cons_succ]
      · split at found
        next closing =>
          obtain rfl := Option.some.inj found
          simp only [Bool.and_eq_true, decide_eq_true_eq] at closing
          rw [List.getElem?_cons_succ, ← List.head?_eq_getElem?, closing.2]
        next => contradiction

theorem lt_of_literalLength? {s : List Char} {n : Nat} (found : literalLength? s = some n) :
    n < s.length :=
  (List.getElem?_eq_some_iff.mp (get_of_literalLength? found)).1

/-! ## The end of a line -/

/-- The text goes on as far as the state needs: over both characters of a comment's opener or
closer, and up to the closing quote of a character literal. -/
def Reaches : MaskState → List Char → Prop
  | .blockOpener, rest => rest ≠ []
  | .blockCloser, rest => rest ≠ []
  | .quoted left, rest => left < rest.length
  | _, _ => True

theorem ne_nil_of_head? {rest : List Char} {c : Char} (next : rest.head? = some c) :
    rest ≠ [] := by
  rintro rfl
  contradiction

theorem reaches_step {state : MaskState} {c : Char} {rest : List Char}
    (reaches : Reaches state (c :: rest)) : Reaches (step state c rest).2 rest := by
  cases state with
  | code =>
      rw [step]
      split
      next => trivial
      next =>
        split
        next opener =>
          rw [Bool.and_eq_true, decide_eq_true_eq, decide_eq_true_eq] at opener
          exact ne_nil_of_head? opener.2
        next =>
          split
          next => trivial
          next =>
            split
            next =>
              split
              next left literal => exact lt_of_literalLength? literal
              next => trivial
            next => trivial
  | lineComment => trivial
  | blockOpener => trivial
  | block =>
      rw [step]
      split
      next closer =>
        rw [Bool.and_eq_true, decide_eq_true_eq, decide_eq_true_eq] at closer
        exact ne_nil_of_head? closer.2
      next => trivial
  | blockCloser => trivial
  | string =>
      rw [step]
      split
      next => trivial
      next => split <;> trivial
  | escaped => trivial
  | quoted left =>
      cases left with
      | zero => trivial
      | succ left => exact Nat.lt_of_succ_lt_succ reaches

/-- A line leaves nothing open but a block comment or a string literal. -/
theorem line_snd {state : MaskState} {text : List Char} (reaches : Reaches state text) :
    (line state text).2 = .code ∨ (line state text).2 = .block ∨ (line state text).2 = .string := by
  induction text generalizing state with
  | nil =>
      cases state with
      | blockOpener => exact absurd rfl reaches
      | blockCloser => exact absurd rfl reaches
      | quoted left => exact absurd reaches (Nat.not_lt_zero left)
      | code => exact .inl rfl
      | lineComment => exact .inl rfl
      | block => exact .inr (.inl rfl)
      | string => exact .inr (.inr rfl)
      | escaped => exact .inr (.inr rfl)
  | cons c rest ih => exact ih (reaches_step reaches)

theorem line_begins {state : MaskState}
    (begins : state = .code ∨ state = .block ∨ state = .string) (text : List Char) :
    (line state text).2 = .code ∨ (line state text).2 = .block ∨ (line state text).2 = .string :=
  line_snd (by rcases begins with rfl | rfl | rfl <;> trivial)

theorem behind_eq {state : MaskState} (begins : state = .code ∨ state = .block ∨ state = .string)
    (lines : List (List Char)) :
    behind state lines = .code ∨ behind state lines = .block ∨ behind state lines = .string := by
  induction lines generalizing state with
  | nil => exact begins
  | cons text rest ih => exact ih (line_begins begins text)

/-- A line of a source begins in plain code, in a block comment or in a string literal. -/
theorem behind_code (lines : List (List Char)) :
    behind .code lines = .code ∨ behind .code lines = .block ∨ behind .code lines = .string :=
  behind_eq (.inl rfl) lines

/-! ## Lines that begin in a string literal -/

/-- Nothing but blanks is seen before the closing quote. -/
theorem line_string {state : MaskState} (inside : state = .string ∨ state = .escaped)
    (text : List Char) :
    ∃ blanks rest, (line state text).1 = blanks ++ rest ∧ (∀ c ∈ blanks, isBlank c = true) ∧
      ∀ c ∈ rest.head?, c = '"' := by
  induction text generalizing state with
  | nil => exact ⟨[], [], rfl, nofun, nofun⟩
  | cons c text ih =>
      have blank : isBlank ' ' = true := by decide
      by_cases closes : state = .string ∧ c = '"'
      · obtain ⟨rfl, rfl⟩ := closes
        refine ⟨[], (line .string ('"' :: text)).1, rfl, nofun, ?_⟩
        rintro d ⟨⟩
        rfl
      · have onward : (step state c text).1 = ' ' ∧
            ((step state c text).2 = .string ∨ (step state c text).2 = .escaped) := by
          rcases inside with rfl | rfl
          · have other : c ≠ '"' := fun same => closes ⟨rfl, same⟩
            rw [step, if_neg other]
            exact ⟨rfl, by split <;> simp⟩
          · exact ⟨rfl, .inl rfl⟩
        obtain ⟨blanks, rest, line_eq, blanks_blank, quote⟩ := ih onward.2
        refine ⟨' ' :: blanks, rest, ?_, List.forall_mem_cons.mpr ⟨blank, blanks_blank⟩, quote⟩
        rw [line, onward.1, line_eq, List.cons_append]

end Mask

/-! ## Function headers -/

namespace Pattern

theorem Fails.star_all {body : Pattern} {parts : List Pattern} {reach : Reach}
    (absent : body.Fails reach) (onward : (all parts).Fails reach) :
    (all (.star body :: parts)).Fails reach := by
  refine fails_seq ?_
  intro middle mem
  rw [Fails] at absent
  have here : (Pattern.star body).ends reach = [reach] := by
    simp only [ends]
    cases reach.place.after.length with
    | zero => rfl
    | succ n => simp [Reach.iterate, absent]
  rw [here] at mem
  obtain rfl := List.mem_singleton.mp mem
  exact onward

end Pattern

namespace Function

theorem header_eq_all : header =
    .all [.maybe Visibility.mark, qualifiers, "fn", .gap, .capture nameMark] := rfl

/-- No header begins with a quote. -/
theorem isHeadOf_quote (rest : List Char) : header.isHeadOf ('"' :: rest) = false := by
  have other {c : Char} (ne : '"' ≠ c) (cs : List Char) :
      (Pattern.text (c :: cs)).Fails ⟨⟨[], '"' :: rest⟩, none⟩ :=
    Pattern.fails_text_cons (fun d mem => by rwa [← Option.mem_some.mp mem]) [] cs none
  have unmarked := Visibility.unmarked_of_ne (c := '"') (by decide) (by decide) (by decide) rest
  have no_qualifier := ((other (c := 'c') (by decide) "onst".toList).alt
    ((other (c := 'a') (by decide) "sync".toList).alt
      (other (c := 'u') (by decide) "nsafe".toList))).alt
        ((other (c := 'e') (by decide) "xtern".toList).seq
          (.maybe (.all [.gap, "\"", .many (· ≠ '"'), "\""])))
  have absent : header.Fails ⟨⟨[], '"' :: rest⟩, none⟩ := by
    rw [header_eq_all]
    refine (Visibility.mark_fails unmarked [] none).maybe_all ?_
    refine (no_qualifier.seq .gap).star_all ?_
    exact (other (c := 'f') (by decide) "n".toList).all_cons _
  have nothing : header.match? ('"' :: rest) = none := absent.matchAt?_eq
  rw [Pattern.isHeadOf, nothing]
  rfl

theorem isHeadOf_nil : header.isHeadOf [] = false := by decide

end Function

/-- No function header is seen on a line that begins inside a string literal. -/
theorem Mask.isHeadOf_line_string (text : List Char) :
    Function.header.isHeadOf (Attribute.behind (line .string text).1) = false := by
  obtain ⟨blanks, rest, line_eq, blank, quote⟩ := line_string (.inl rfl) text
  have unblank : trimStart (blanks ++ rest) = rest := by
    rw [trimStart, List.dropWhile_append_of_pos blank]
    cases rest with
    | nil => rfl
    | cons c rest =>
        obtain rfl := quote c rfl
        rfl
  rw [Attribute.behind, Attribute.peel, line_eq, trim, unblank]
  obtain ⟨cut, rest_eq⟩ := trimEnd_prefix rest
  cases trimmed : trimEnd rest with
  | nil => exact Function.isHeadOf_nil
  | cons c shown =>
      rw [trimmed] at rest_eq
      obtain rfl := quote c (by rw [← rest_eq]; rfl)
      exact Function.isHeadOf_quote shown

end SorobanLint
