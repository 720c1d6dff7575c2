import SorobanLint.Proofs.Catalog
import SorobanLint.Proofs.Findings
import SorobanLint.Proofs.Masked.Function

/-!
# Where violations stand

Every violation of a default rule in a recovered contract stands at a line and a column of the
source.  The line is one of the struct that declares the reported field, or of the function that
the violation is about (`Contract.placed_of_parse`).
-/

namespace SorobanLint

open Text

/-! ## Columns -/

namespace Finding

variable {lines : List (List Char)} {line : Int} {text : List Char}

/-- A column lies on the line, or at the end of it. -/
theorem columnOf_bounds (positive : 1 ≤ line) (text_eq : lines[line.toNat - 1]? = some text)
    (word : String) : 1 ≤ columnOf lines line word ∧ columnOf lines line word ≤ text.length + 1 := by
  have indent_le : (text.takeWhile isBlank).length ≤ text.length :=
    (List.takeWhile_prefix isBlank).length_le
  rw [columnOf, if_neg (Int.not_lt.mpr positive)]
  simp only [text_eq]
  split
  · omega
  · split
    next found searched =>
      have offset_le := (Pattern.in_of_search? searched).offset_le
      omega
    next => omega

end Finding

/-- A violation stands at a line of the source, at a character of that line or at its end. -/
structure Violation.Placed (lines : List (List Char)) (violation : Violation) : Prop where
  line_pos : 1 ≤ violation.line
  line_le : violation.line ≤ lines.length
  column_pos : 1 ≤ violation.column
  column_le : ∃ text, lines[violation.line.toNat - 1]? = some text ∧
    violation.column ≤ text.length + 1

theorem Finding.placed_toViolation {lines : List (List Char)} {finding : Finding}
    (positive : 1 ≤ finding.line) (within : finding.line ≤ lines.length) (ruleName : String)
    (severity : Severity) : (finding.toViolation ruleName severity lines).Placed lines := by
  have index_lt : finding.line.toNat - 1 < lines.length := by omega
  have text_eq : lines[finding.line.toNat - 1]? = some lines[finding.line.toNat - 1] :=
    List.getElem?_eq_getElem index_lt
  obtain ⟨column_pos, column_le⟩ :=
    Finding.columnOf_bounds positive text_eq finding.variableName
  exact ⟨positive, within, column_pos, _, text_eq, column_le⟩

/-! ## Findings in a recovered contract -/

theorem Extent.Occupies.line_bounds {texts : List (List Char)} {extent : Extent}
    {definition : String} (occupies : extent.Occupies texts definition) {line : Int}
    (inside : extent.Holds line) : 1 ≤ line ∧ line ≤ texts.length :=
  ⟨Int.le_trans occupies.first_pos inside.1, Int.le_trans inside.2 occupies.last_le⟩

namespace Finding

/-- A check finds something about a struct: it is about one of the fields, and stands on the line
of that field, which is one of the lines of the struct's definition. -/
structure InStruct (lines : List (List Char)) (contract : Contract) (check : Check)
    (struct : Struct) (finding : Finding) : Prop where
  found : finding ∈ check.structFindings contract struct
  field : ∃ field ∈ struct.fields, finding.variableName = field.name ∧ finding.line = field.line
  occupies : struct.extent.Occupies lines struct.definition
  inside : struct.extent.Holds finding.line

/-- A check finds something about a function: it stands on one of the lines of the function's
definition. -/
structure InFunction (lines : List (List Char)) (check : Check) (function : Function)
    (finding : Finding) : Prop where
  found : finding ∈ check.functionFindings function
  occupies : function.extent.Occupies lines function.definition
  inside : function.extent.Holds finding.line

end Finding

namespace Contract

variable {source path : String} {contract : Contract} {check : Check} {finding : Finding}

/-- A recovered function has as many lines of code as its definition has lines. -/
theorem aligned_of_parse (parsed : parse source path = .ok contract) {function : Function}
    (mem : function ∈ contract.functions) : function.Aligned := by
  obtain ⟨target, above, line, later, below, last, cut, header, read⟩ :=
    exists_read_of_mem_functions parsed mem
  have inside : ∀ text ∈ linesOf source, OneLine text :=
    fun text mem => oneLine_of_mem_splitLines mem
  have excerpt := Excerpt.of_ofTexts (fun text mem => (inside text mem).feedless) cut
  obtain ⟨last_le, extent_eq, -⟩ := Function.occupies_of_read excerpt read
  have feeds_eq : lineFeeds function.definition.toList = last := by
    have first_eq := congrArg Extent.first extent_eq
    have last_eq := congrArg Extent.last extent_eq
    simp only [Function.extent, Extent.ofDefinition] at first_eq last_eq
    omega
  rw [Function.Aligned, Function.codeLines, length_mask_eq,
    Function.linesOf_definition inside cut read, List.length_take, feeds_eq, List.length_map,
    List.length_cons]
  omega

/-- Every finding in a recovered contract stands on a line of what it is about. -/
theorem inside_of_mem_findings (parsed : parse source path = .ok contract)
    (mem : finding ∈ check.findings contract) :
    (∃ struct ∈ contract.types, finding.InStruct (linesOf source) contract check struct) ∨
      ∃ function ∈ contract.functions, finding.InFunction (linesOf source) check function := by
  obtain ⟨outline, first, rest, rfl, -, -, contract_eq⟩ := parse_eq_ok parsed
  have laid : contract.LaidOut (linesOf source) :=
    contract_eq ▸ laidOut_scan first.name source path
  rcases Check.mem_findings_iff.mp mem with ⟨struct, listed, found⟩ | ⟨function, listed, found⟩
  · have struct_laid := laid.types_laidOut struct listed
    obtain ⟨field, field_mem, about, line_eq⟩ := Check.field_of_mem_structFindings found
    have inside := struct_laid.fields_inside field field_mem
    exact .inl ⟨struct, listed, found, ⟨field, field_mem, about, line_eq⟩, struct_laid.occupies,
      line_eq ▸ inside⟩
  · obtain ⟨block, block_mem, function_mem⟩ := List.mem_flatMap.mp listed
    have occupies := (laid.impls_laidOut block block_mem).functions_occupy function function_mem
    have inside := Check.holds_of_mem_functionFindings (aligned_of_parse parsed listed) found
    exact .inr ⟨function, listed, found, occupies, inside⟩

theorem line_bounds_of_mem_findings (parsed : parse source path = .ok contract)
    (mem : finding ∈ check.findings contract) :
    1 ≤ finding.line ∧ finding.line ≤ (linesOf source).length := by
  rcases inside_of_mem_findings parsed mem with ⟨struct, -, place⟩ | ⟨function, -, place⟩
  · exact place.occupies.line_bounds place.inside
  · exact place.occupies.line_bounds place.inside

/-- Every finding in a recovered contract stands on a line of the source. -/
theorem one_le_line_of_mem_findings (parsed : parse source path = .ok contract) (check : Check) :
    ∀ finding ∈ check.findings contract, 1 ≤ finding.line :=
  fun _ mem => (line_bounds_of_mem_findings parsed mem).1

/-- In a recovered contract every default rule gives an answer.  All its violations stand at a line
and a column of the source, and each of them is what the rule's check finds about a struct, on the
line of a field inside it, or about a function, on a line inside that. -/
theorem placed_of_parse (parsed : parse source path = .ok contract) :
    ∀ rule ∈ Rule.defaults, ∃ (check : Check) (violations : List Violation),
      rule = check.defaultRule ∧ rule.apply contract = some violations ∧
      ∀ violation ∈ violations, violation.Placed (linesOf source) ∧
        ∃ finding : Finding, violation = finding.toViolation rule.id rule.severity (linesOf source) ∧
          ((∃ struct ∈ contract.types, finding.InStruct (linesOf source) contract check struct) ∨
            ∃ function ∈ contract.functions,
              finding.InFunction (linesOf source) check function) := by
  intro rule listed
  obtain ⟨check, -, rfl⟩ := List.mem_map.mp listed
  refine ⟨check, _, rfl, rfl, ?_⟩
  intro violation mem
  obtain ⟨finding, found, rfl⟩ := List.mem_map.mp mem
  obtain ⟨positive, within⟩ := line_bounds_of_mem_findings parsed found
  rw [source_of_parse parsed]
  exact ⟨Finding.placed_toViolation positive within _ _, finding, rfl,
    inside_of_mem_findings parsed found⟩

/-- Violations about a field, about a parameter on a line of its own, and about a vector in the body
of the function. -/
theorem placed_three_kinds :
    let struct := "struct A \x7b\n  x: u128,\n\x7d"
    let function := "  fn f(\n    a: i128) \x7b\n    let v = Vec::new(); v.push(a);\n  \x7d"
    let block := "impl A \x7b\n" ++ function ++ "\n\x7d"
    let source := "#[contracttype]\n" ++ struct ++ "\n#[contractimpl]\n" ++ block ++ "\n"
    let contract : Contract := {
      name := "A"
      types := [⟨"A", [⟨"x", "u128", .priv, 3⟩], 2, struct⟩]
      impls := [⟨"A", [⟨"f", [⟨"a", "i128"⟩], none, .priv, false, 7, function⟩], 6, block⟩]
      source
      path := "a.rs" }
    let wide (description : String) (line column : Int) (variableName : String) : Violation := {
      ruleName := "soroban-inefficient-integers"
      description := description ++
        ": 128/256-bit integers are more expensive to store and process"
      severity := .info
      line
      column
      variableName
      suggestion := "Use u64 or u32 when the value range allows it" }
    let field := wide "Field 'x' of 'A' is declared as u128" 3 3 "x"
    let param := wide "Parameter 'a' of 'f' is declared as i128" 8 5 "a"
    let body : Violation := {
      ruleName := "soroban-vec-without-capacity"
      description := "Empty std Vec in 'f' is grown with push()"
      severity := .info
      line := 9
      column := 9
      variableName := "v"
      suggestion := "Use Vec::with_capacity(n) or soroban_sdk::Vec::new(&env)" }
    let wideRule := Check.wideIntegers.defaultRule
    let bodyRule := Check.emptyVec.defaultRule
    parse source "a.rs" = .ok contract ∧ wideRule ∈ Rule.defaults ∧ bodyRule ∈ Rule.defaults ∧
      wideRule.apply contract = some [field, param] ∧ bodyRule.apply contract = some [body] ∧
      field.Placed (linesOf source) ∧ param.Placed (linesOf source) ∧
      body.Placed (linesOf source) := by
  intro struct function block source contract wide field param body wideRule bodyRule
  have parsed : parse source "a.rs" = .ok contract := by decide +kernel
  have wide_listed : wideRule ∈ Rule.defaults := List.mem_map_of_mem (Check.mem_all .wideIntegers)
  have body_listed : bodyRule ∈ Rule.defaults := List.mem_map_of_mem (Check.mem_all .emptyVec)
  have wide_applied : wideRule.apply contract = some [field, param] := by decide +kernel
  have body_applied : bodyRule.apply contract = some [body] := by decide +kernel
  obtain ⟨_, violations, -, given, wide_placed⟩ := placed_of_parse parsed wideRule wide_listed
  obtain rfl := Option.some.inj (wide_applied.symm.trans given)
  obtain ⟨_, violations, -, given, body_placed⟩ := placed_of_parse parsed bodyRule body_listed
  obtain rfl := Option.some.inj (body_applied.symm.trans given)
  have param_mem : param ∈ [field, param] := List.mem_cons_of_mem field List.mem_cons_self
  exact ⟨parsed, wide_listed, body_listed, wide_applied, body_applied,
    (wide_placed field List.mem_cons_self).1, (wide_placed param param_mem).1,
    (body_placed body List.mem_cons_self).1⟩

end Contract
end SorobanLint
