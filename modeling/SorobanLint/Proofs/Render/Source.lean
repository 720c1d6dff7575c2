import SorobanLint.Contract.Parse
import SorobanLint.Proofs.Lines
import SorobanLint.Proofs.Render.Header

/-!
# Plain sources

A source without quotes and slashes is its own masked text, so each of its lines is its own code.  A
scan takes a rendered line as it is written: an attribute on a line of its own marks the next item,
and other code is an item.
-/

namespace SorobanLint

open Text

/-- Whether the character stands in plain code: it begins no comment or literal and ends no line. -/
def Text.isPlain (c : Char) : Bool :=
  c ≠ '/' && c ≠ '"' && c ≠ '\'' && !isTerminator c

namespace Text

variable {c : Char} {text : List Char} {lines : List (List Char)}

theorem oneLine_of_plain (plain : ∀ c ∈ text, isPlain c = true) : OneLine text := by
  intro c mem
  have plain_c := plain c mem
  simp only [isPlain, Bool.and_eq_true, Bool.not_eq_true'] at plain_c
  exact plain_c.2

theorem isPlain_of_isTypeChar (inside : isTypeChar c = true) : isPlain c = true := by
  rw [isTypeChar, Bool.or_eq_true] at inside
  rcases inside with inside | other
  · have ne {d : Char} (outside : isIdentRest d = false) : c ≠ d := ne_of_isIdentRest inside outside
    simp [isPlain, ne (d := '/') (by decide), ne (d := '"') (by decide),
      ne (d := '\'') (by decide), isTerminator_of_isIdentRest inside]
  · have each : ∀ d ∈ "<>()[],;: &-".toList, isPlain d = true := forall_mem_of_all rfl
    exact each c (List.contains_iff_mem.mp other)

end Text

theorem Ident.isPlain_of_mem (ident : Ident) : ∀ c ∈ ident.text, isPlain c = true :=
  fun c mem => isPlain_of_isTypeChar (ident.isTypeChar_of_mem c mem)

theorem Mask.line_of_forall {text : List Char}
    (bare : ∀ c ∈ text, c ≠ '/' ∧ c ≠ '"' ∧ c ≠ '\'') : line .code text = (text, .code) := by
  induction text with
  | nil => rfl
  | cons c text ih =>
      rw [List.forall_mem_cons] at bare
      obtain ⟨⟨no_slash, no_quote, no_tick⟩, bare⟩ := bare
      simp [line, step, no_slash, no_quote, no_tick, ih bare]

/-- Lines without quotes and slashes are their own masked texts. -/
theorem mask_of_forall {lines : List (List Char)}
    (bare : ∀ text ∈ lines, ∀ c ∈ text, c ≠ '/' ∧ c ≠ '"' ∧ c ≠ '\'') : mask lines = lines := by
  rw [mask]
  induction lines with
  | nil => rfl
  | cons text lines ih =>
      rw [List.forall_mem_cons] at bare
      rw [Mask.linesFrom, Mask.line_of_forall bare.1, ih bare.2]

namespace Line

variable {n : Nat}

/-- Plain lines with their numbers from `n` on. -/
def plain (n : Nat) (lines : List (List Char)) : List Line := numberFrom n lines lines

/-- Lines without quotes and slashes are numbered with themselves as their code. -/
theorem ofTexts_of_forall {lines : List (List Char)}
    (bare : ∀ text ∈ lines, ∀ c ∈ text, c ≠ '/' ∧ c ≠ '"' ∧ c ≠ '\'') :
    ofTexts lines = plain 1 lines := by
  rw [ofTexts, mask_of_forall bare, plain]

theorem plain_cons (n : Nat) (text : List Char) (lines : List (List Char)) :
    plain n (text :: lines) = ⟨n, text, text⟩ :: plain (n + 1) lines := rfl

theorem length_plain (n : Nat) (lines : List (List Char)) :
    (plain n lines).length = lines.length := by
  induction lines generalizing n with
  | nil => rfl
  | cons text lines ih => rw [plain_cons, List.length_cons, ih, List.length_cons]

theorem plain_append (n : Nat) (front back : List (List Char)) :
    plain n (front ++ back) = plain n front ++ plain (n + front.length) back := by
  induction front generalizing n with
  | nil => rfl
  | cons text front ih =>
      rw [List.cons_append, plain_cons, ih, plain_cons, List.cons_append, List.length_cons,
        Nat.add_assoc, Nat.add_comm 1]

theorem plain_drop (n k : Nat) (lines : List (List Char)) :
    (plain n lines).drop k = plain (n + k) (lines.drop k) := by
  induction k generalizing n lines with
  | zero => rfl
  | succ k ih =>
      cases lines with
      | nil => rfl
      | cons text lines =>
          rw [plain_cons, List.drop_succ_cons, ih, List.drop_succ_cons, Nat.add_assoc,
            Nat.add_comm 1 k]

theorem map_code_plain (n : Nat) (lines : List (List Char)) :
    (plain n lines).map (·.code) = lines :=
  map_code_numberFrom rfl

theorem rawThrough_plain (n last : Nat) (lines : List (List Char)) :
    rawThrough (plain n lines) last = String.ofList (joinLines (lines.take (last + 1))) := by
  rw [rawThrough, plain, map_raw_numberFrom rfl]

theorem codeFrom_eq {line : Line} (spaced : Spaced line.code) :
    line.codeFrom line.code = line.code := by
  rw [codeFrom, spaced.trimEnd_eq, Nat.sub_self, List.drop_zero]

end Line

namespace Contract

/-- A plain source is recovered if a scan of its lines finds a struct and reaches the end. -/
theorem parse_plain {lines : List (List Char)}
    (plain : ∀ text ∈ lines, ∀ c ∈ text, isPlain c = true)
    {path : String} {first : Struct} {rest : List Struct} {impls : List ImplBlock}
    (scanned : Outline.scanFrom path .initial (Line.plain 1 lines) =
      ⟨first :: rest, impls, none⟩) :
    parse (String.ofList (terminated lines)) path =
      .ok ⟨first.name, first :: rest, impls, String.ofList (terminated lines), path⟩ := by
  have lines_eq : linesOf (String.ofList (terminated lines)) = lines := by
    have split := linesOf_terminated (fun text mem => oneLine_of_plain (plain text mem)) ""
    rw [String.append_empty] at split
    rw [split]
    exact List.append_nil lines
  have numbered : Line.ofTexts lines = Line.plain 1 lines := by
    refine Line.ofTexts_of_forall fun text text_mem c mem => ?_
    have plain_c := plain text text_mem c mem
    simp only [isPlain, Bool.and_eq_true, decide_eq_true_eq] at plain_c
    exact ⟨plain_c.1.1.1, plain_c.1.1.2, plain_c.1.2⟩
  simp only [parse, lines_eq, numbered, Outline.scan, scanned]

end Contract

/-! ## Steps of a scan -/

/-- Code that begins with no attribute has none to peel off. -/
theorem Attribute.peel_code {code : List Char} (spaced : Spaced code)
    (no_attribute : code.head? ≠ some '#') : peel code = ⟨[], code, true⟩ := by
  obtain ⟨c, rest, rfl, solid⟩ := spaced.head_solid
  have other : c ≠ '#' := fun same => no_attribute (by rw [same]; rfl)
  have no_bracket : inside? (c :: rest) = none := by
    unfold inside?
    split <;> simp_all
  rw [peel, peelFrom, solid, no_bracket]
  rfl

namespace Outline

variable {state : ScanState} {line : Line} {later : List Line}

theorem codeAt_eq (not_opened : state.opened = none) (spaced : Spaced line.code) :
    state.codeAt line = line.code := by
  rw [ScanState.codeAt, not_opened]
  exact spaced.trim_eq

/-- An attribute on a line of its own marks the next item. -/
theorem step_attribute {name : List Char} (not_opened : state.opened = none)
    (spaced : Spaced line.code) (peeled : Attribute.peel line.code = ⟨[name], [], true⟩) :
    step state line later = .proceed { state with markers := state.markers ++ [name] } := by
  have nonempty : line.code.isEmpty = false := List.isEmpty_eq_false_iff.mpr spaced.ne_nil
  simp only [step, codeAt_eq not_opened spaced, peeled, nonempty]
  obtain ⟨skip, opened, markers, depth⟩ := state
  obtain rfl := not_opened
  rfl

/-- Behind an attribute on a line of its own, a scan goes on with the marker. -/
theorem scanFrom_attribute (path : String) (n : Nat) {name text : List Char} (spaced : Spaced text)
    (peeled : Attribute.peel text = ⟨[name], [], true⟩) (below : List (List Char)) :
    scanFrom path .initial (Line.plain n (text :: below)) =
      scanFrom path { ScanState.initial with markers := [name] } (Line.plain (n + 1) below) := by
  have marked : step .initial ⟨n, text, text⟩ (Line.plain (n + 1) below) =
      .proceed { ScanState.initial with markers := [name] } := step_attribute rfl spaced peeled
  rw [Line.plain_cons, scanFrom_proceed rfl marked]

/-- Other code on a line is an item. -/
theorem step_item (not_opened : state.opened = none) (spaced : Spaced line.code)
    (no_attribute : line.code.head? ≠ some '#') :
    step state line later = atItem state state.markers line.code line later := by
  have nonempty : line.code.isEmpty = false := List.isEmpty_eq_false_iff.mpr spaced.ne_nil
  simp [step, codeAt_eq not_opened spaced, Attribute.peel_code spaced no_attribute, nonempty]

end Outline
end SorobanLint
