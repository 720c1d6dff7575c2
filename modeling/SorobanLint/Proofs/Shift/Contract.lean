import SorobanLint.Contract.Parse
import SorobanLint.Proofs.Lines
import SorobanLint.Proofs.Pattern
import SorobanLint.Proofs.Shift.Outline

/-!
# Lines without code in front of a source

A line is idle if it holds blanks and perhaps a line comment.  Masking leaves blanks of it and the
same state behind it, and a scan passes over it; so idle lines in front of a source move its
contract down and change nothing else (`Contract.parse_behind_idle`).
-/

namespace SorobanLint

open Text

/-- A line without code: blanks, and perhaps a comment up to the end of the line. -/
def Text.Idle (line : List Char) : Prop :=
  OneLine line ∧ ∃ lead comment, (∀ c ∈ lead, isBlank c = true) ∧
    (line = lead ∨ line = lead ++ '/' :: '/' :: comment)

/-! ## Masking -/

namespace Mask

theorem step_blank {c : Char} (blank : isBlank c = true) (rest : List Char) :
    step .code c rest = (c, .code) := by
  have other {d : Char} (solid : isBlank d = false) : c ≠ d := by
    rintro rfl
    simp [blank] at solid
  simp [step, other (d := '/') (by decide), other (d := '"') (by decide),
    other (d := '\'') (by decide)]

theorem line_lineComment (text : List Char) :
    line .lineComment text = (List.replicate text.length ' ', .code) := by
  induction text with
  | nil => rfl
  | cons c rest ih => simp [line, step, ih, List.replicate_succ]

theorem line_idle {text : List Char} (idle : Idle text) :
    (∀ c ∈ (line .code text).1, isBlank c = true) ∧ (line .code text).2 = .code := by
  obtain ⟨-, lead, comment, blank, same⟩ := idle
  induction lead generalizing text with
  | nil =>
      have space : isBlank ' ' = true := by decide
      rcases same with rfl | rfl
      · exact ⟨by simp [line], rfl⟩
      · simp [line, step, line_lineComment, space]
  | cons c lead ih =>
      rw [List.forall_mem_cons] at blank
      rcases same with rfl | rfl
      · obtain ⟨blanks, state⟩ := ih blank.2 (.inl rfl)
        simp only [line, step_blank blank.1, List.forall_mem_cons]
        exact ⟨⟨blank.1, blanks⟩, state⟩
      · obtain ⟨blanks, state⟩ := ih blank.2 (.inr rfl)
        simp only [List.cons_append, line, step_blank blank.1, List.forall_mem_cons]
        exact ⟨⟨blank.1, blanks⟩, state⟩

/-- The masked texts of idle lines are blank, and those of the lines below stay as they are. -/
theorem linesFrom_idle {lines : List (List Char)} (idle : ∀ text ∈ lines, Idle text)
    (texts : List (List Char)) :
    ∃ blanks, blanks.length = lines.length ∧ (∀ code ∈ blanks, ∀ c ∈ code, isBlank c = true) ∧
      linesFrom .code (lines ++ texts) = blanks ++ linesFrom .code texts := by
  induction lines with
  | nil => exact ⟨[], rfl, by simp, rfl⟩
  | cons text lines ih =>
      rw [List.forall_mem_cons] at idle
      obtain ⟨blank, state⟩ := line_idle idle.1
      obtain ⟨blanks, same_length, all_blank, masked⟩ := ih idle.2
      refine ⟨(line .code text).1 :: blanks, by simp [same_length],
        List.forall_mem_cons.mpr ⟨blank, all_blank⟩, ?_⟩
      simp only [List.cons_append, linesFrom, state, masked]

end Mask

/-! ## Scanning -/

theorem Text.trim_blank {s : List Char} (blank : ∀ c ∈ s, isBlank c = true) : trim s = [] := by
  rw [trim, trimStart, List.dropWhile_eq_nil_iff.2 blank]
  rfl

namespace Line

theorem numberFrom_append {n : Nat} {raws codes : List (List Char)}
    (same_length : codes.length = raws.length) (later_raws later_codes : List (List Char)) :
    numberFrom n (raws ++ later_raws) (codes ++ later_codes) =
      numberFrom n raws codes ++ numberFrom (n + raws.length) later_raws later_codes := by
  induction raws generalizing n codes with
  | nil =>
      obtain rfl := List.length_eq_zero_iff.mp same_length
      rfl
  | cons raw raws ih =>
      obtain ⟨code, codes, rfl⟩ := List.exists_cons_of_length_eq_add_one same_length
      simp only [List.cons_append, numberFrom, ih (Nat.succ.inj same_length), List.length_cons]
      rw [Nat.add_assoc, Nat.add_comm 1]

end Line

namespace Outline

variable {path : String}

/-- A scan that has not begun passes over lines whose code is blank. -/
theorem scanFrom_blank {lines : List Line}
    (blank : ∀ line ∈ lines, ∀ c ∈ line.code, isBlank c = true) (later : List Line) :
    scanFrom path .initial (lines ++ later) = scanFrom path .initial later := by
  induction lines with
  | nil => rfl
  | cons line lines ih =>
      rw [List.forall_mem_cons] at blank
      have empty : ScanState.initial.codeAt line = [] := Text.trim_blank blank.1
      have passed : step .initial line (lines ++ later) = .proceed .initial := by
        simp [step, empty]
      rw [List.cons_append, scanFrom_proceed rfl passed, ih blank.2]

end Outline

/-! ## Contracts -/

/-- The contract with all its declarations further down by `k`, in another source. -/
def Contract.shift (k : Nat) (source : String) (contract : Contract) : Contract :=
  { contract with
    types := contract.types.map (·.shift k)
    impls := contract.impls.map (·.shift k)
    source }

namespace Contract

theorem markedStruct_eq : ∃ behind, markedStruct = .seq (.text ['#', '[']) behind :=
  ⟨_, rfl⟩

/-- The marker of a struct is not found in front of the code of the first line. -/
theorem occursIn_markedStruct_blank {blanks : List (List Char)}
    (blank : ∀ code ∈ blanks, ∀ c ∈ code, isBlank c = true) (codes : List (List Char)) :
    markedStruct.occursIn (joinLines (blanks ++ codes)) =
      markedStruct.occursIn (joinLines codes) := by
  have absent {code : List Char} (code_blank : ∀ c ∈ code, isBlank c = true) : '#' ∉ code := by
    intro mem
    have marked := code_blank '#' mem
    simp [isBlank] at marked
  obtain ⟨behind, pattern_eq⟩ := markedStruct_eq
  rw [pattern_eq]
  induction blanks with
  | nil => rfl
  | cons code blanks ih =>
      rw [List.forall_mem_cons] at blank
      rw [← ih blank.2, List.cons_append]
      cases blanks ++ codes with
      | nil =>
          have alone : (Pattern.seq (.text ['#', '[']) behind).occursIn (code ++ []) =
              (Pattern.seq (.text ['#', '[']) behind).occursIn [] :=
            Pattern.occursIn_append (absent blank.1) []
          rwa [List.append_nil, ← joinLines_singleton code, ← joinLines_nil] at alone
      | cons next rest =>
          have whole : joinLines (code :: next :: rest) =
              (code ++ ['\n']) ++ joinLines (next :: rest) := by
            rw [joinLines_cons_cons, List.append_assoc, List.singleton_append]
          rw [whole]
          exact Pattern.occursIn_append (by simp [absent blank.1]) _

/-- Idle lines in front of a source move its contract down, and a fault stays of its kind. -/
theorem parse_behind_idle {lines : List (List Char)} (idle : ∀ text ∈ lines, Idle text)
    (source path : String) :
    match parse source path with
    | .error error => ∃ moved,
        parse (String.ofList (terminated lines) ++ source) path = .error moved ∧
          moved.kind = error.kind
    | .ok contract =>
        parse (String.ofList (terminated lines) ++ source) path =
          .ok (contract.shift lines.length (String.ofList (terminated lines) ++ source)) := by
  have texts_eq := linesOf_terminated (fun text mem => (idle text mem).1) source
  obtain ⟨blanks, same_length, blank, masked⟩ := Mask.linesFrom_idle idle (linesOf source)
  have numbered : Line.ofTexts (lines ++ linesOf source) =
      Line.numberFrom 1 lines blanks ++
        (Line.ofTexts (linesOf source)).map (·.shift lines.length) := by
    rw [Line.ofTexts, mask, masked, Line.numberFrom_append same_length, Line.numberFrom_add]
    rfl
  have blank_lines :
      ∀ line ∈ Line.numberFrom 1 lines blanks, ∀ c ∈ line.code, isBlank c = true := by
    intro line mem
    have code_mem := List.mem_map_of_mem (f := (·.code)) mem
    rw [Line.map_code_numberFrom same_length] at code_mem
    exact blank line.code code_mem
  have scanned : Outline.scan path (Line.ofTexts (lines ++ linesOf source)) =
      (Outline.scan path (Line.ofTexts (linesOf source))).shift lines.length := by
    rw [numbered, Outline.scan, Outline.scanFrom_blank blank_lines, Outline.scanFrom_shift]
    rfl
  have marked : markedStruct.occursIn
      (joinLines ((Line.ofTexts (lines ++ linesOf source)).map (·.code))) =
      markedStruct.occursIn (joinLines ((Line.ofTexts (linesOf source)).map (·.code))) := by
    rw [Line.map_code_ofTexts, Line.map_code_ofTexts, mask, masked,
      occursIn_markedStruct_blank blank]
    rfl
  simp only [parse, texts_eq, scanned, marked]
  generalize Outline.scan path (Line.ofTexts (linesOf source)) = outline
  obtain ⟨structs, impls, fault⟩ := outline
  cases fault with
  | none =>
      cases structs with
      | nil => exact ⟨_, rfl, rfl⟩
      | cons first rest => rfl
  | some fault =>
      cases fault with
      | lostHeader line => exact ⟨_, rfl, rfl⟩
      | unfinished fault =>
          simp only [Outline.shift, Option.map_some, Fault.shift]
          cases markedStruct.occursIn
              (joinLines ((Line.ofTexts (linesOf source)).map (·.code))) with
          | false => exact ⟨_, rfl, rfl⟩
          | true => exact ⟨_, rfl, rfl⟩

end Contract
end SorobanLint
