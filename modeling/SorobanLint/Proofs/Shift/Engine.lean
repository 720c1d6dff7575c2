import SorobanLint.Proofs.Placed
import SorobanLint.Proofs.Shift.Findings
import SorobanLint.Proofs.Words

/-!
# Analysis of a moved source

Lines without code in front of a source move every violation down by their number and change
nothing else (`Engine.analyze_behind_idle`): columns are looked up on lines of the source, of which
those in front are never read.
-/

namespace SorobanLint

open Text

variable {k : Nat}

/-- The violation further down by `k`. -/
def Violation.shift (k : Nat) (violation : Violation) : Violation :=
  { violation with line := violation.line + k }

/-! ## Findings as violations -/

namespace Finding

variable {header lines : List (List Char)}

/-- The lines in front are never read for a column on a line of the source. -/
theorem columnOf_append {line : Int} (positive : 1 ≤ line) (word : String) :
    columnOf (header ++ lines) (line + header.length) word = columnOf lines line word := by
  have index_eq : (line + header.length).toNat - 1 = header.length + (line.toNat - 1) := by omega
  rw [columnOf, columnOf, if_neg (by omega), if_neg (by omega), index_eq,
    List.getElem?_append_right (Nat.le_add_right _ _), Nat.add_sub_cancel_left]

theorem toViolation_shift {finding : Finding} (positive : 1 ≤ finding.line) (ruleName : String)
    (severity : Severity) :
    toViolation ruleName severity (header ++ lines) (finding.shift header.length) =
      (toViolation ruleName severity lines finding).shift header.length := by
  simp only [toViolation, Finding.shift, Violation.shift, columnOf_append positive]

end Finding

namespace Violation

theorem identity_shift (a b : Violation) :
    (a.shift k).identity = (b.shift k).identity ↔ a.identity = b.identity := by
  simp [identity, shift]

theorem dedupe_shift (violations : List Violation) :
    dedupe (violations.map (·.shift k)) = (dedupe violations).map (·.shift k) :=
  dedupe_map identity_shift violations

end Violation

/-! ## Rules -/

namespace Rule

/-- A rule of the catalog finds the same in a moved contract, further down. -/
theorem FromCatalog.apply_shift {rule : Rule} (catalog : rule.FromCatalog) {contract : Contract}
    {header : List (List Char)} {source : String}
    (behind : linesOf source = header ++ linesOf contract.source)
    (positive : ∀ check : Check, ∀ finding ∈ check.findings contract, 1 ≤ finding.line) :
    (rule.apply (contract.shift header.length source)).getD [] =
      ((rule.apply contract).getD []).map (·.shift header.length) := by
  obtain ⟨check, severity, enabled, rfl⟩ := catalog
  simp only [Check.rule, Option.getD_some, report, Check.findings_shift, List.map_map]
  have source_eq : (contract.shift header.length source).source = source := rfl
  rw [source_eq, behind]
  refine List.map_congr_left ?_
  intro finding mem
  exact Finding.toViolation_shift (positive check finding mem) _ _

end Rule

/-! ## Engines -/

namespace Engine

variable (engine : Engine)

theorem check_shift (catalog : ∀ rule ∈ engine.rules, rule.FromCatalog) {contract : Contract}
    {header : List (List Char)} {source : String}
    (behind : linesOf source = header ++ linesOf contract.source)
    (positive : ∀ check : Check, ∀ finding ∈ check.findings contract, 1 ≤ finding.line) :
    engine.check (contract.shift header.length source) =
      (engine.check contract).map (·.shift header.length) := by
  rw [check, check, ← Violation.dedupe_shift, List.map_flatMap]
  congr 1
  refine List.flatMap_congr ?_
  intro rule mem
  exact (catalog rule (List.mem_of_mem_filter mem)).apply_shift behind positive

/-- With lines of blanks and line comments in front of a source the analysis fails as before, or it
finds the same violations in the same order, each further down by the number of these lines. -/
theorem analyze_behind_idle (catalog : ∀ rule ∈ engine.rules, rule.FromCatalog)
    {header : List (List Char)} (idle : ∀ text ∈ header, Idle text) (source path : String) :
    match engine.analyze source path with
    | .error error => ∃ moved,
        engine.analyze (String.ofList (terminated header) ++ source) path = .error moved ∧
          moved.kind = error.kind
    | .ok violations =>
        engine.analyze (String.ofList (terminated header) ++ source) path =
          .ok (violations.map (·.shift header.length)) := by
  have moved := Contract.parse_behind_idle idle source path
  unfold analyze
  cases parsed : Contract.parse source path with
  | error error =>
      rw [parsed] at moved
      obtain ⟨other, failed, same_kind⟩ := moved
      exact ⟨other, by rw [failed]; rfl, same_kind⟩
  | ok contract =>
      rw [parsed] at moved
      have behind := linesOf_terminated (fun text mem => (idle text mem).1) source
      obtain ⟨outline, first, rest, -, -, -, contract_eq⟩ := Contract.parse_eq_ok parsed
      have source_eq : contract.source = source := by rw [contract_eq]
      rw [← source_eq] at behind
      have checked := engine.check_shift catalog behind
        (Contract.one_le_line_of_mem_findings parsed)
      rw [source_eq] at checked
      simp only [moved, Except.map, checked]

/-- A comment and an empty line in front of a struct whose field no function uses. -/
theorem analyze_behind_comment :
    let source := "#[contracttype]\nstruct A \x7b\n  x: u8,\n\x7d\n"
    let header := [" // A".toList, []]
    let violation (line : Int) : Violation := {
      ruleName := "soroban-unused-state-variables"
      description := "State variable 'x' of 'A' is never used by any contract function"
      severity := .warning
      line
      column := 3
      variableName := "x"
      suggestion := "Remove 'x' to reduce storage footprint and ledger rent" }
    (∀ rule ∈ default.rules, rule.FromCatalog) ∧ (∀ text ∈ header, Idle text) ∧
      default.analyze source "a.rs" = .ok [violation 3] ∧
      default.analyze (String.ofList (terminated header) ++ source) "a.rs" = .ok [violation 5] := by
  intro source header violation
  have catalog : ∀ rule ∈ default.rules, rule.FromCatalog :=
    fun rule mem => Rule.fromCatalog_of_mem_defaults mem
  have idle : ∀ text ∈ header, Idle text := by
    refine List.forall_mem_cons.mpr ⟨⟨?_, [' '], [' ', 'A'], forall_mem_of_all rfl, .inr rfl⟩, ?_⟩
    · exact (forall_mem_of_all rfl : ∀ c ∈ " // A".toList, isTerminator c = false)
    · exact List.forall_mem_singleton.mpr ⟨nofun, [], [], nofun, .inl rfl⟩
  have analyzed : default.analyze source "a.rs" = .ok [violation 3] := by decide +kernel
  have moved := default.analyze_behind_idle catalog idle source "a.rs"
  rw [analyzed] at moved
  exact ⟨catalog, idle, analyzed, moved⟩

end Engine
end SorobanLint
