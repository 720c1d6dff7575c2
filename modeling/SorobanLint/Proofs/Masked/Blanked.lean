import SorobanLint.Proofs.Masked.State

/-!
# What masking leaves of a source

Masking replaces characters by spaces and does nothing else, so every column stays in place.  In
the masked text no comment opens any more, and the string literals are blank from their opening
quote to the closing one, on whichever line that stands (`mask_blanked`).
-/

namespace SorobanLint

open Text

/-- The masked text is the text with some of its characters replaced by spaces. -/
def Blanked (text masked : List Char) : Prop :=
  List.Forall₂ (fun c written => written = c ∨ written = ' ') text masked

/-- No comment opens in the text. -/
def Uncommented (text : List Char) : Prop :=
  ¬ "//".toList <:+: text ∧ ¬ "/*".toList <:+: text

/-- Behind an opening quote, which is the first, third, fifth and so on of the text, only spaces
stand up to the next quote or the end of the text. -/
def LiteralsBlank (text : List Char) : Prop :=
  ∀ before inside after, text = before ++ '"' :: (inside ++ after) → Even (before.count '"') →
    '"' ∉ inside → ∀ c ∈ inside, c = ' '

/-- Behind an odd number of quotes, of which so many stand in front of the text, there are only
quotes and spaces. -/
def BlankBehind : Nat → List Char → Prop
  | _, [] => True
  | quotes, c :: rest =>
    (Odd quotes → c = '"' ∨ c = ' ') ∧ BlankBehind (quotes + [c].count '"') rest

theorem blankBehind_append {quotes : Nat} {s t : List Char} :
    BlankBehind quotes (s ++ t) ↔
      BlankBehind quotes s ∧ BlankBehind (quotes + s.count '"') t := by
  induction s generalizing quotes with
  | nil => simp [BlankBehind]
  | cons c s ih =>
      have count_eq : (c :: s).count '"' = [c].count '"' + s.count '"' := by
        rw [← List.count_append, List.singleton_append]
      rw [List.cons_append, BlankBehind, BlankBehind, ih, count_eq, Nat.add_assoc, and_assoc]

theorem blank_of_blankBehind {quotes : Nat} {inside : List Char}
    (blank : BlankBehind quotes inside) (opened : Odd quotes) (unclosed : '"' ∉ inside) :
    ∀ c ∈ inside, c = ' ' := by
  induction inside with
  | nil => simp
  | cons c inside ih =>
      obtain ⟨other, unclosed⟩ := List.ne_and_not_mem_of_not_mem_cons unclosed
      obtain ⟨here, onward⟩ := blank
      have level : [c].count '"' = 0 := List.count_eq_zero.mpr (by simpa using other)
      rw [level, Nat.add_zero] at onward
      exact List.forall_mem_cons.mpr
        ⟨(here opened).resolve_left other.symm, ih onward unclosed⟩

theorem literalsBlank_of_blankBehind {text : List Char} (blank : BlankBehind 0 text) :
    LiteralsBlank text := by
  rintro before inside after rfl even unclosed
  obtain ⟨-, -, behind⟩ := blankBehind_append.mp blank
  have opened : Odd (0 + before.count '"' + ['"'].count '"') := by
    rw [Nat.zero_add]
    exact even.add_one
  exact blank_of_blankBehind (blankBehind_append.mp behind).1 opened unclosed

namespace Mask

/-! ## What one step writes -/

/-- The character literal that is being read, if any, ends where the state says. -/
def Fits : MaskState → List Char → Prop
  | .quoted left, rest => rest[left]? = some '\''
  | _, _ => True

/-- The next character belongs to the inside of a string literal. -/
def InString : MaskState → Prop
  | .string | .escaped => True
  | _ => False

/-- What one step can write in front of the rest of a line, and how its state goes on. -/
inductive Writes (state : MaskState) (rest : List Char) : Char → MaskState → Prop where
  /-- A space, whatever is read. -/
  | blank {next : MaskState} (same : InString next ↔ InString state) : Writes state rest ' ' next
  /-- The quote at either end of a string literal. -/
  | quote {next : MaskState} (turned : InString next ↔ ¬InString state) : Writes state rest '"' next
  /-- A character of the code, which opens neither a literal nor a comment. -/
  | kept {c : Char} {next : MaskState} (outside : ¬InString state) (still_outside : ¬InString next)
      (no_quote : c ≠ '"') (no_comment : c = '/' → rest.head? ≠ some '/' ∧ rest.head? ≠ some '*') :
      Writes state rest c next

theorem writes_step {state : MaskState} {c : Char} {rest : List Char}
    (fits : Fits state (c :: rest)) :
    Writes state rest (step state c rest).1 (step state c rest).2 ∧
      Fits (step state c rest).2 rest := by
  have apostrophe {next : MaskState} (outside : ¬InString state) (still_outside : ¬InString next) :
      Writes state rest '\'' next :=
    .kept outside still_outside (by decide) (by intro slash; contradiction)
  cases state with
  | code =>
      rw [step]
      split
      next => exact ⟨.blank .rfl, trivial⟩
      next no_line =>
        split
        next => exact ⟨.blank .rfl, trivial⟩
        next no_block =>
          split
          next quote =>
            subst quote
            exact ⟨.quote (by simp [InString]), trivial⟩
          next no_quote =>
            split
            next quote =>
              subst quote
              split
              next left literal => exact ⟨apostrophe id id, get_of_literalLength? literal⟩
              next => exact ⟨apostrophe id id, trivial⟩
            next =>
              refine ⟨.kept id id no_quote ?_, trivial⟩
              rintro rfl
              simpa using And.intro no_line no_block
  | lineComment => exact ⟨.blank .rfl, trivial⟩
  | blockOpener => exact ⟨.blank .rfl, trivial⟩
  | block =>
      rw [step]
      split <;> exact ⟨.blank .rfl, trivial⟩
  | blockCloser => exact ⟨.blank .rfl, trivial⟩
  | string =>
      rw [step]
      split
      next quote =>
        subst quote
        exact ⟨.quote (by simp [InString]), trivial⟩
      next => split <;> exact ⟨.blank .rfl, trivial⟩
  | escaped => exact ⟨.blank .rfl, trivial⟩
  | quoted left =>
      cases left with
      | zero =>
          obtain rfl := Option.some.inj fits
          exact ⟨apostrophe id id, trivial⟩
      | succ left => exact ⟨.blank .rfl, fits⟩

/-! ## Lines -/

theorem inString_atLineEnd (state : MaskState) : InString (atLineEnd state) ↔ InString state := by
  cases state <;> exact .rfl

theorem blanked_line (state : MaskState) (text : List Char) :
    Blanked text (line state text).1 := by
  induction text generalizing state with
  | nil => exact .nil
  | cons c rest ih => exact .cons (step_fst state c rest) (ih _)

theorem head?_of_blanked {text masked : List Char} {c : Char} (blanked : Blanked text masked)
    (head : masked.head? = some c) (solid : c ≠ ' ') : text.head? = some c := by
  cases blanked with
  | nil => contradiction
  | cons here onward =>
      obtain rfl := Option.some.inj head
      exact congrArg some (here.resolve_right solid).symm

/-- A slash that is kept has neither a slash nor an asterisk behind it, since each of those is
either the one read there or a space. -/
theorem uncommented_line {state : MaskState} {text : List Char} (fits : Fits state text) :
    Uncommented (line state text).1 := by
  induction text generalizing state with
  | nil => constructor <;> simp [line]
  | cons c rest ih =>
      have unopened {d : Char} (solid : d ≠ ' ') (comment : d = '/' ∨ d = '*') :
          ¬ ['/', d] <+: (line state (c :: rest)).1 := by
        rw [line, List.cons_prefix_cons]
        rintro ⟨slash, behind⟩
        obtain ⟨more, masked_eq⟩ := behind
        have next := head?_of_blanked (blanked_line (step state c rest).2 rest)
          (by rw [← masked_eq]; rfl) solid
        have writes := (writes_step fits).1
        rw [← slash] at writes
        cases writes with
        | kept outside still_outside no_quote no_comment =>
            obtain ⟨no_line, no_block⟩ := no_comment rfl
            rcases comment with rfl | rfl
            · exact no_line next
            · exact no_block next
      obtain ⟨no_line, no_block⟩ := ih (writes_step fits).2
      constructor
      · rw [line, List.infix_cons_iff, not_or]
        exact ⟨unopened (by decide) (.inl rfl), no_line⟩
      · rw [line, List.infix_cons_iff, not_or]
        exact ⟨unopened (by decide) (.inr rfl), no_block⟩

/-- Inside a string literal, an odd number of quotes has been written. -/
theorem literals_line {state : MaskState} {text : List Char} {quotes : Nat}
    (fits : Fits state text) (agrees : InString state ↔ Odd quotes) :
    BlankBehind quotes (line state text).1 ∧
      (InString (line state text).2 ↔ Odd (quotes + (line state text).1.count '"')) := by
  induction text generalizing state quotes with
  | nil => exact ⟨trivial, (inString_atLineEnd state).trans agrees⟩
  | cons c rest ih =>
      obtain ⟨writes, onward⟩ := writes_step fits
      rw [line, BlankBehind]
      generalize step state c rest = written at writes onward
      obtain ⟨w, next⟩ := written
      obtain ⟨here, next_agrees⟩ : (Odd quotes → w = '"' ∨ w = ' ') ∧
          (InString next ↔ Odd (quotes + [w].count '"')) := by
        cases writes with
        | blank same => exact ⟨fun _ => .inr rfl, same.trans agrees⟩
        | quote turned =>
            exact ⟨fun _ => .inl rfl, turned.trans (agrees.not.trans Nat.odd_add_one.symm)⟩
        | kept outside still_outside no_quote =>
            have level : [w].count '"' = 0 := List.count_eq_zero.mpr (by simpa using no_quote.symm)
            rw [level]
            exact ⟨fun odd => absurd (agrees.mpr odd) outside,
              iff_of_false still_outside (mt agrees.mpr outside)⟩
      obtain ⟨blank, ends⟩ := ih onward next_agrees
      rw [Nat.add_assoc, ← List.count_append, List.singleton_append] at ends
      exact ⟨⟨here, blank⟩, ends⟩

/-! ## Sources -/

variable {state : MaskState}

theorem fits_of_begins (begins : state = .code ∨ state = .block ∨ state = .string)
    (text : List Char) : Fits state text := by
  rcases begins with rfl | rfl | rfl <;> trivial

theorem blanked_linesFrom (state : MaskState) (lines : List (List Char)) :
    List.Forall₂ Blanked lines (linesFrom state lines) := by
  induction lines generalizing state with
  | nil => exact .nil
  | cons text rest ih => exact .cons (blanked_line state text) (ih _)

theorem uncommented_linesFrom (begins : state = .code ∨ state = .block ∨ state = .string)
    (lines : List (List Char)) : ∀ text ∈ linesFrom state lines, Uncommented text := by
  induction lines generalizing state with
  | nil => simp [linesFrom]
  | cons text rest ih =>
      exact List.forall_mem_cons.mpr ⟨uncommented_line (fits_of_begins begins text),
        ih (line_begins begins text)⟩

theorem literals_linesFrom {quotes : Nat}
    (begins : state = .code ∨ state = .block ∨ state = .string)
    (agrees : InString state ↔ Odd quotes) (lines : List (List Char)) :
    BlankBehind quotes (linesFrom state lines).flatten := by
  induction lines generalizing state quotes with
  | nil => trivial
  | cons text rest ih =>
      obtain ⟨blank, ends⟩ := literals_line (fits_of_begins begins text) agrees
      exact blankBehind_append.mpr ⟨blank, ih (line_begins begins text) ends⟩

end Mask

/-- Masking keeps the number of lines and the length of each, and every character is the one read
in its place or a space.  No comment opens on a masked line, and in the masked lines, read one
behind the other, the string literals are blank. -/
theorem mask_blanked (lines : List (List Char)) :
    (mask lines).map List.length = lines.map List.length ∧
      List.Forall₂ Blanked lines (mask lines) ∧
      (∀ text ∈ mask lines, Uncommented text) ∧
      LiteralsBlank (mask lines).flatten := by
  have outside : Mask.InString .code ↔ Odd 0 := iff_of_false id (by decide)
  exact ⟨length_mask lines, Mask.blanked_linesFrom .code lines,
    Mask.uncommented_linesFrom (.inl rfl) lines,
    literalsBlank_of_blankBehind (Mask.literals_linesFrom (.inl rfl) outside lines)⟩

/-- A quote in a character literal or a comment opens nothing, nor does a comment opener in a string
literal, and the backslash at the end of a line escapes nothing on the next one. -/
example :
    mask ["let c = '\"'; // \"/*".toList, "let s = \"/* \\".toList, "// \" - 'a; /* \"".toList] =
      ["let c = ' ';       ".toList, "let s = \"    ".toList, "   \" - 'a;     ".toList] := by
  decide

end SorobanLint
