import SorobanLint.Proofs.Masked.Blanked

/-!
# Plain code

Of a comment or the inside of a literal, masking leaves nothing but spaces.  So every character of
the masked text that is neither blank nor a quote was read in plain code (`Mask.inCode_of_mask`).
-/

namespace SorobanLint

open Text

namespace Mask

/-- The state in which masking reads the character at a column of a line. -/
def stateAt : MaskState → List Char → Nat → MaskState
  | state, c :: rest, column + 1 => stateAt (step state c rest).2 rest column
  | state, _, _ => state

/-- The text stands in the masked source in front of a character that was read in plain code. -/
def InCode (texts : List (List Char)) (front : List Char) : Prop :=
  ∃ above text below column, texts = above ++ text :: below ∧ column < text.length ∧
    front = terminated (mask above) ++ (line (behind .code above) text).1.take column ∧
    stateAt (behind .code above) text column = .code

variable {state : MaskState} {c : Char}

theorem eq_code_of_step {rest : List Char} (fits : Fits state (c :: rest))
    (kept : (step state c rest).1 ∉ [' ', '"', '\'']) : state = .code := by
  simp only [List.mem_cons, List.not_mem_nil, or_false, not_or] at kept
  obtain ⟨no_space, no_quote, no_apostrophe⟩ := kept
  cases state with
  | code => rfl
  | lineComment => exact absurd rfl no_space
  | blockOpener => exact absurd rfl no_space
  | block => exact absurd rfl no_space
  | blockCloser => exact absurd rfl no_space
  | string =>
      rw [step] at no_space no_quote
      split at no_quote
      next closing => exact absurd closing no_quote
      next other => exact absurd (if_neg other ▸ rfl) no_space
  | escaped => exact absurd rfl no_space
  | quoted left =>
      cases left with
      | zero => exact absurd (Option.some.inj fits) no_apostrophe
      | succ left => exact absurd rfl no_space

theorem stateAt_of_line {text left right : List Char} (fits : Fits state text)
    (masked : (line state text).1 = left ++ c :: right) (kept : c ∉ [' ', '"', '\'']) :
    stateAt state text left.length = .code := by
  induction text generalizing state left with
  | nil => simp [line] at masked
  | cons d text ih =>
      rw [line] at masked
      cases left with
      | nil =>
          rw [← (List.cons.inj masked).1] at kept
          exact eq_code_of_step fits kept
      | cons e left => exact ih (writes_step fits).2 (List.cons.inj masked).2

/-- A character of the masked source that is neither blank nor a quote was read in plain code. -/
theorem inCode_of_mask {texts : List (List Char)} {front rest : List Char}
    (whole : joinLines (mask texts) = front ++ c :: rest) (same_line : c ≠ '\n')
    (kept : c ∉ [' ', '"', '\'']) : InCode texts front := by
  obtain ⟨masked_above, left, right, masked_below, masked_eq, rfl, -⟩ :=
    cut_joinLines_token (show joinLines (mask texts) = front ++ ([c] ++ rest) from whole)
      (List.cons_ne_nil c []) (by simpa using same_line.symm)
  have index_lt : masked_above.length < texts.length := by
    rw [← length_mask_eq texts, masked_eq]
    simp
  obtain ⟨above, text, below, rfl, above_length⟩ :
      ∃ above text below, texts = above ++ text :: below ∧ above.length = masked_above.length := by
    refine ⟨texts.take masked_above.length, texts[masked_above.length],
      texts.drop (masked_above.length + 1), ?_, ?_⟩
    · rw [List.getElem_cons_drop, List.take_append_drop]
    · rw [List.length_take, Nat.min_eq_left (Nat.le_of_lt index_lt)]
  rw [mask, linesFrom_append, linesFrom] at masked_eq
  obtain ⟨above_eq, others_eq⟩ := List.append_inj masked_eq
    ((length_mask_eq above).trans above_length)
  have line_eq := (List.cons.inj others_eq).1
  have fits := fits_of_begins (behind_code above) text
  refine ⟨above, text, below, left.length, rfl, ?_, ?_, stateAt_of_line fits line_eq kept⟩
  · have lengths := length_line (behind .code above) text
    rw [line_eq, List.singleton_append, List.length_append, List.length_cons] at lengths
    omega
  · rw [line_eq, List.take_left, ← above_eq]
    rfl

end Mask
end SorobanLint
