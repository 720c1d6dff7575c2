import SorobanLint.Proofs.Placed
import SorobanLint.Proofs.Sorted

/-!
# Findings in source order

What a check finds about the structs of a contract comes in the order of their fields, and what it
finds about the functions comes function by function; so a check reports in source order as soon as
it finds things in order in each function (`Check.pairwise_functionFindings`).  The checks of the
catalog that look at bodies do so, or sort what they find by line, and the check for unused state
finds nothing in functions (`Contract.ordered_of_parse`).
-/

namespace SorobanLint

open Text

/-- A violation has the line of its finding. -/
theorem Rule.pairwise_report (id : String) (severity : Severity) (contract : Contract)
    (findings : List Finding) :
    (report id severity contract findings).Pairwise (·.line ≤ ·.line) ↔
      findings.Pairwise (·.line ≤ ·.line) :=
  List.pairwise_map

/-! ## One function at a time -/

namespace Function

variable {function : Function} {place other : Place}

/-- Of two places of a function, the one behind is on no line above. -/
theorem lineAt_le_of_offset_le (inside : place.In function.code)
    (other_inside : other.In function.code) (le : place.offset ≤ other.offset) :
    function.lineAt place ≤ function.lineAt other :=
  Int.add_le_add_left (Int.ofNat_le.mpr (inside.line_le_of_offset_le other_inside le)) _

end Function

namespace UnboundedLoop

namespace Loop

theorem precedes_iff (a b : Loop) :
    a.precedes b = true ↔ a.start.offset < b.start.offset ∨
      a.start.offset = b.start.offset ∧ String.ofList a.name ≤ String.ofList b.name := by
  simp [precedes]

theorem precedes_total (a b : Loop) : a.precedes b = true ∨ b.precedes a = true := by
  rw [precedes_iff, precedes_iff]
  rcases lt_trichotomy a.start.offset b.start.offset with before | same | behind
  · exact .inl (.inl before)
  · rcases le_total (String.ofList a.name) (String.ofList b.name) with le | le
    · exact .inl (.inr ⟨same, le⟩)
    · exact .inr (.inr ⟨same.symm, le⟩)
  · exact .inr (.inl behind)

theorem precedes_trans (a b c : Loop) (first : a.precedes b = true)
    (second : b.precedes c = true) : a.precedes c = true := by
  rw [precedes_iff] at first second ⊢
  rcases first with before | ⟨same, le⟩
  · refine .inl (before.trans_le ?_)
    rcases second with behind | ⟨next_same, -⟩
    · exact behind.le
    · exact next_same.le
  · rcases second with behind | ⟨next_same, next_le⟩
    · exact .inl (same.trans_lt behind)
    · exact .inr ⟨same.trans next_same, le.trans next_le⟩

/-- The loops of a text are listed from left to right. -/
theorem pairwise_all (code : List Char) :
    (all code).Pairwise fun a b => a.start.offset ≤ b.start.offset := by
  refine (Order.pairwise_sort precedes_total precedes_trans _).imp ?_
  intro a b precedes
  rcases (precedes_iff a b).mp precedes with before | ⟨same, -⟩
  · exact before.le
  · exact same.le

end Loop

theorem pairwise_functionFindings (function : Function) :
    (functionFindings function).Pairwise (·.line ≤ ·.line) := by
  rw [functionFindings]
  split
  · exact List.Pairwise.nil
  · refine List.pairwise_map.mpr (((Loop.pairwise_all function.code).filter _).imp_of_mem ?_)
    intro a b a_mem b_mem le
    exact Function.lineAt_le_of_offset_le (in_of_mem_all (List.mem_of_mem_filter a_mem))
      (in_of_mem_all (List.mem_of_mem_filter b_mem)) le

end UnboundedLoop

namespace StringBuilding

theorem pairwise_lineFindings (function : Function) (index : Nat) (lines : List (List Char)) :
    (lineFindings function index lines).Pairwise (·.line ≤ ·.line) := by
  induction lines generalizing index with
  | nil => exact List.Pairwise.nil
  | cons line rest ih =>
      rw [lineFindings, List.pairwise_append]
      refine ⟨?_, ih (index + 1), ?_⟩
      · cases lineFinding? function index line with
        | none => exact List.Pairwise.nil
        | some finding => exact List.pairwise_singleton _ finding
      · intro finding here later below
        obtain ⟨k, -, line_eq⟩ := line_of_mem_lineFindings below
        rw [Option.mem_toList, lineFinding?] at here
        split at here
        · contradiction
        · obtain rfl := Option.some.inj here
          rw [line_eq]
          dsimp only
          omega

end StringBuilding

namespace EmptyVec

theorem pairwise_functionFindings (function : Function) :
    (functionFindings function).Pairwise (·.line ≤ ·.line) := by
  have found := (Pattern.pairwise_findAll emptyVec function.code).filter
    fun found => push.occursIn found.stop.after
  refine List.pairwise_map.mpr (found.imp_of_mem ?_)
  intro a b a_mem b_mem before
  exact Function.lineAt_le_of_offset_le
    (Pattern.in_of_mem_findAll (List.mem_of_mem_filter a_mem))
    (Pattern.in_of_mem_findAll (List.mem_of_mem_filter b_mem)) before.le

end EmptyVec

/-! ## All declarations -/

namespace Check

variable {texts : List (List Char)} {contract : Contract} {check : Check}

theorem pairwise_findings_of_struct {struct : Struct}
    (ordered : struct.fields.Pairwise fun a b => a.line ≤ b.line) (check : Check)
    (contract : Contract) :
    (check.structFindings contract struct).Pairwise (·.line ≤ ·.line) := by
  cases check with
  | unusedState =>
      simp only [structFindings, UnusedState.findings, List.flatMap_singleton]
      exact List.pairwise_map.mpr (ordered.filter _)
  | wideIntegers => exact List.pairwise_map.mpr (ordered.filter _)
  | ownedStrings => exact List.pairwise_map.mpr (ordered.filter _)
  | repeatedStorage | unboundedLoop | stringBuilding | emptyVec => exact List.Pairwise.nil

/-- What is found about the structs comes in the order of their fields. -/
theorem pairwise_structFindings (laid : contract.LaidOut texts) (check : Check) :
    (contract.types.flatMap (check.structFindings contract)).Pairwise (·.line ≤ ·.line) := by
  obtain ⟨within, across⟩ := List.pairwise_flatMap.mp laid.fields_ordered
  refine List.pairwise_flatMap.mpr ⟨?_, across.imp ?_⟩
  · exact fun struct mem => pairwise_findings_of_struct (within struct mem) check contract
  · intro upper lower ordered finding mem other other_mem
    obtain ⟨field, field_mem, -, line_eq⟩ := field_of_mem_structFindings mem
    obtain ⟨below, below_mem, -, below_eq⟩ := field_of_mem_structFindings other_mem
    rw [line_eq, below_eq]
    exact ordered field field_mem below below_mem

/-- What is found about the functions comes in source order exactly if it does in each of them. -/
theorem pairwise_functionFindings (laid : contract.LaidOut texts)
    (aligned : ∀ function ∈ contract.functions, function.Aligned) (check : Check) :
    (contract.functions.flatMap check.functionFindings).Pairwise (·.line ≤ ·.line) ↔
      ∀ function ∈ contract.functions,
        (check.functionFindings function).Pairwise (·.line ≤ ·.line) := by
  rw [List.pairwise_flatMap, and_iff_left]
  refine laid.functions_ordered.imp_of_mem ?_
  intro upper lower upper_mem lower_mem before finding mem other other_mem
  have ends := (holds_of_mem_functionFindings (aligned upper upper_mem) mem).2
  have begins := (holds_of_mem_functionFindings (aligned lower lower_mem) other_mem).1
  exact Int.le_trans ends (Int.le_trans (Int.le_of_lt before) begins)

theorem findings_unusedState (contract : Contract) :
    unusedState.findings contract =
      contract.types.flatMap (unusedState.structFindings contract) := by
  simp [findings, structFindings, UnusedState.findings, Contract.functions]

end Check

theorem RepeatedStorage.pairwise_findings (contract : Contract) :
    (findings contract).Pairwise (·.line ≤ ·.line) :=
  Order.pairwise_sort_by Finding.line (contract.functions.flatMap functionFindings)

namespace Contract

variable {source path : String} {contract : Contract}

/-- The checks for unused state, repeated storage access, unbounded loops, string building and empty
vectors report in source order: along the list, no line comes before an earlier one. -/
theorem ordered_of_parse (parsed : parse source path = .ok contract) {check : Check}
    (listed : check ∈ [Check.unusedState, .repeatedStorage, .unboundedLoop, .stringBuilding,
      .emptyVec]) (severity : Severity) (enabled : Bool) :
    ∃ violations, (check.rule severity enabled).apply contract = some violations ∧
      violations.Pairwise (·.line ≤ ·.line) := by
  obtain ⟨outline, first, rest, rfl, -, -, contract_eq⟩ := parse_eq_ok parsed
  have laid : contract.LaidOut (linesOf source) :=
    contract_eq ▸ laidOut_scan first.name source path
  have by_function := Check.pairwise_functionFindings laid
    (fun function mem => aligned_of_parse parsed mem) check
  refine ⟨_, rfl, (Rule.pairwise_report _ _ _ _).mpr ?_⟩
  simp only [List.mem_cons, List.not_mem_nil, or_false] at listed
  rcases listed with rfl | rfl | rfl | rfl | rfl
  · exact Check.findings_unusedState contract ▸ Check.pairwise_structFindings laid _
  · exact RepeatedStorage.pairwise_findings contract
  · exact by_function.mpr fun function _ => UnboundedLoop.pairwise_functionFindings function
  · exact by_function.mpr fun function _ => StringBuilding.pairwise_lineFindings function 0 _
  · exact by_function.mpr fun function _ => EmptyVec.pairwise_functionFindings function

/-- A call and a loop over the same vector, and a loop in the next function. -/
theorem ordered_of_parse_loops :
    let first :=
      "  fn f(v: Vec<u8>) \x7b\n    v.iter().for_each(g);\n    for x in v \x7b \x7d\n  \x7d"
    let second := "  fn h(w: Map) \x7b\n    for k in w \x7b \x7d\n  \x7d"
    let block := "impl A \x7b\n" ++ first ++ "\n" ++ second ++ "\n\x7d"
    let source := "#[contracttype]\nstruct A \x7b \x7d\n#[contractimpl]\n" ++ block ++ "\n"
    let functions : List Function := [
      ⟨"f", [⟨"v", "Vec<u8>"⟩], none, .priv, false, 5, first⟩,
      ⟨"h", [⟨"w", "Map"⟩], none, .priv, false, 9, second⟩]
    let contract : Contract :=
      ⟨"A", [⟨"A", [], 2, "struct A \x7b \x7d"⟩], [⟨"A", functions, 4, block⟩], source, "a.rs"⟩
    let rule := Check.unboundedLoop.rule .warning true
    parse source "a.rs" = .ok contract ∧
      (rule.apply contract).map (·.map (·.line)) = some [6, 7, 10] ∧
      ∃ violations, rule.apply contract = some violations ∧
        violations.Pairwise (·.line ≤ ·.line) := by
  intro first second block source functions contract rule
  have parsed : parse source "a.rs" = .ok contract := by decide +kernel
  have lines : (rule.apply contract).map (·.map (·.line)) = some [6, 7, 10] := by decide +kernel
  have listed : Check.unboundedLoop ∈ [Check.unusedState, .repeatedStorage, .unboundedLoop,
      .stringBuilding, .emptyVec] := by decide
  exact ⟨parsed, lines, ordered_of_parse parsed listed .warning true⟩

end Contract
end SorobanLint
