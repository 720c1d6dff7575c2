import SorobanLint.Proofs.Masked.Outline
import SorobanLint.Proofs.Scan

/-!
# What comments and literals contain

Two sources whose lines have the same masked texts are recovered alike: the contracts differ in
nothing but their texts, or both sources fail with the same error (`Contract.parse_of_mask_eq`).
-/

namespace SorobanLint

open Text

/-- The contract without its source and the definitions in it. -/
def Contract.bare (contract : Contract) : Contract :=
  { contract with
    types := contract.types.map (·.bare)
    impls := contract.impls.map (·.bare)
    source := "" }

/-! ## Lines -/

theorem mask_append (lines later : List (List Char)) :
    mask (lines ++ later) = mask lines ++ Mask.linesFrom (Mask.behind .code lines) later :=
  Mask.linesFrom_append .code lines later

theorem eq_nil_of_mask_eq {first second : List (List Char)} (same : mask first = mask second)
    (empty : first = []) : second = [] := by
  rw [← List.length_eq_zero_iff, ← length_mask_eq, ← same, empty]
  rfl

/-- The lines of two joined texts have the same masked texts if the joined lines do. -/
theorem mask_linesOf_joinLines {first second : List (List Char)}
    (first_inside : ∀ line ∈ first, OneLine line) (second_inside : ∀ line ∈ second, OneLine line)
    (same : mask first = mask second) :
    mask (linesOf (String.ofList (joinLines first))) =
      mask (linesOf (String.ofList (joinLines second))) := by
  rw [linesOf, linesOf, String.toList_ofList, String.toList_ofList]
  rcases List.eq_nil_or_concat first with rfl | ⟨above, last, rfl⟩
  · obtain rfl := eq_nil_of_mask_eq same rfl
    rfl
  rcases List.eq_nil_or_concat second with rfl | ⟨other_above, other_last, rfl⟩
  · exact absurd (eq_nil_of_mask_eq same.symm rfl) (by simp)
  simp only [List.concat_eq_append] at first_inside second_inside same ⊢
  rw [List.forall_mem_append, List.forall_mem_singleton] at first_inside second_inside
  rw [splitLines_joinLines first_inside.1 first_inside.2,
    splitLines_joinLines second_inside.1 second_inside.2]
  have lengths := congrArg (List.map List.length) same
  rw [length_mask, length_mask, List.map_append, List.map_append] at lengths
  have last_length : last.length = other_last.length := by
    have lasts := List.append_inj_right' lengths rfl
    simpa using lasts
  have above_length : (mask above).length = (mask other_above).length := by
    have aboves := congrArg List.length (List.append_inj_left' lengths rfl)
    simpa [length_mask_eq] using aboves
  have empty_iff : last = [] ↔ other_last = [] := by
    rw [← List.length_eq_zero_iff, last_length, List.length_eq_zero_iff]
  by_cases empty : last = []
  · rw [if_pos empty, if_pos (empty_iff.mp empty)]
    rw [mask_append, mask_append] at same
    exact List.append_inj_left same above_length
  · rwa [if_neg empty, if_neg (empty_iff.not.mp empty)]

namespace Line

theorem map_bare_ofTexts {first second : List (List Char)} (same : mask first = mask second) :
    (ofTexts first).map (·.bare) = (ofTexts second).map (·.bare) := by
  rw [ofTexts, ofTexts, same]
  exact map_bare_numberFrom (same ▸ length_mask_eq first) (length_mask_eq second)

end Line

/-! ## Contracts -/

namespace Contract

theorem scan_bare {first second : List (List Char)} (same : mask first = mask second)
    (path : String) :
    (Outline.scan path (Line.ofTexts first)).bare =
      (Outline.scan path (Line.ofTexts second)).bare := by
  rw [Outline.scan, ← Outline.scanFrom_bare, Line.map_bare_ofTexts same, Outline.scanFrom_bare]
  rfl

/-- What comments and literals contain leaves no trace in a contract but its texts, and none at
all in an error. -/
theorem parse_of_mask_eq {first second : List (List Char)}
    (first_inside : ∀ line ∈ first, OneLine line) (second_inside : ∀ line ∈ second, OneLine line)
    (same : mask first = mask second) (path : String) :
    (parse (String.ofList (joinLines first)) path).map bare =
      (parse (String.ofList (joinLines second)) path).map bare := by
  have same_lines := mask_linesOf_joinLines first_inside second_inside same
  have scanned := scan_bare same_lines path
  have codes : (Line.ofTexts (linesOf (String.ofList (joinLines first)))).map (·.code) =
      (Line.ofTexts (linesOf (String.ofList (joinLines second)))).map (·.code) := by
    rw [Line.map_code_ofTexts, Line.map_code_ofTexts, same_lines]
  simp only [parse, codes]
  generalize Outline.scan path (Line.ofTexts (linesOf (String.ofList (joinLines first)))) = left
    at scanned
  generalize Outline.scan path (Line.ofTexts (linesOf (String.ofList (joinLines second)))) = right
    at scanned
  generalize markedStruct.occursIn (joinLines _) = marked
  obtain ⟨structs, impls, fault⟩ := left
  obtain ⟨other_structs, other_impls, other_fault⟩ := right
  obtain ⟨structs_eq, impls_eq, fault_eq⟩ := Outline.mk.inj scanned
  dsimp only at structs_eq impls_eq fault_eq
  subst fault_eq
  cases fault with
  | some fault =>
      cases fault with
      | lostHeader line => rfl
      | unfinished fault => cases marked <;> rfl
  | none =>
      cases structs with
      | nil =>
          obtain rfl := List.map_eq_nil_iff.mp structs_eq.symm
          rfl
      | cons struct structs =>
          cases other_structs with
          | nil => contradiction
          | cons other other_structs =>
              have bare_eq : struct.bare = other.bare := (List.cons.inj structs_eq).1
              change Except.ok (Contract.mk struct.bare.name _ _ "" path) =
                Except.ok (Contract.mk other.bare.name _ _ "" path)
              rw [bare_eq, structs_eq, impls_eq]

/-- Braces in a string, a character literal and both kinds of comment. -/
theorem parse_of_mask_eq_braces :
    let frame (comment block string char : String) : List (List Char) :=
      ["#[contracttype]", "struct A \x7b x: u8 \x7d //" ++ comment, "#[contractimpl]",
        "impl A \x7b /*" ++ block,
        " */ fn f(a: u8) \x7b g(\"" ++ string ++ "\", '" ++ char ++ "') \x7d",
        "\x7d"].map String.toList
    let first := frame " \x7b\"" "fn g()" "\x7d)" "\x7b"
    let second := frame "///" "\x7b\x7b*\x7d\x7d\x7d" "a\x7b" ")"
    (∀ line ∈ first, OneLine line) ∧ (∀ line ∈ second, OneLine line) ∧ first ≠ second ∧
      mask first = mask second ∧
      (parse (String.ofList (joinLines first)) "a.rs").isOk = true ∧
      (parse (String.ofList (joinLines first)) "a.rs").map bare =
        (parse (String.ofList (joinLines second)) "a.rs").map bare := by
  intro frame first second
  have inside (lines : List (List Char)) (all : lines.all (·.all (!isTerminator ·)) = true) :
      ∀ line ∈ lines, OneLine line := by
    simpa [OneLine] using all
  have first_inside := inside first (by decide +kernel)
  have second_inside := inside second (by decide +kernel)
  have same : mask first = mask second := by decide +kernel
  exact ⟨first_inside, second_inside, by decide +kernel, same, by decide +kernel,
    parse_of_mask_eq first_inside second_inside same "a.rs"⟩

end Contract
end SorobanLint
