import SorobanLint.Proofs.Declared.Param
import SorobanLint.Proofs.Ordered.Findings

/-!
# The order of findings about types

The checks for types go through all fields first and through all parameters afterwards.  So they
report in source order only where every struct with a field to be avoided stands above every
function with a parameter to be avoided, and where the parameters are found in order in each of
these functions (`Contract.typeFindings_of_parse`).  The latter is so unless a text in front of a
parameter is taken for its declaration (`Function.Frame.findsInOrder`); the former is not where a
struct follows a block (`Contract.typeFindings_structBelow`).
-/

namespace SorobanLint

open Text

/-- What the check looks for in declared types, if it is about types. -/
def Check.typeCheck? : Check → Option TypeCheck
  | wideIntegers => some .wideIntegers
  | ownedStrings => some .ownedStrings
  | unusedState | repeatedStorage | unboundedLoop | stringBuilding | emptyVec => none

namespace TypeCheck

variable (types : TypeCheck)

/-- The struct has a field whose type is to be avoided. -/
def FlagsField (struct : Struct) : Prop :=
  ∃ field ∈ struct.fields, types.flags field.typeName = true

/-- The function has a parameter whose type is to be avoided. -/
def FlagsParam (function : Function) : Prop :=
  ∃ param ∈ function.params, types.flags param.typeName = true

/-- The parameters of the function whose types are to be avoided are found on lines in order. -/
def FindsInOrder (function : Function) : Prop :=
  (function.params.filter fun param => types.flags param.typeName).Pairwise fun a b =>
    function.paramLine a ≤ function.paramLine b

/-- Every parameter whose type is to be avoided has a name, and no text of the function in front of
that name looks like the declaration of the parameter. -/
def Declares {texts : List (List Char)} {function : Function}
    (frame : function.Frame texts) : Prop :=
  ∀ param ∈ function.params, types.flags param.typeName = true →
    isIdentifier param.name.toList = true ∧ ∀ site : Param.Site frame.list param,
      param.declaration.occursIn (frame.head ++ '(' :: site.front) = false

variable {types}

theorem fieldFindings_ne_nil {struct : Struct} :
    types.fieldFindings struct ≠ [] ↔ types.FlagsField struct := by
  simp [fieldFindings, FlagsField]

theorem paramFindings_ne_nil {function : Function} :
    types.paramFindings function ≠ [] ↔ types.FlagsParam function := by
  simp [paramFindings, FlagsParam]

theorem pairwise_paramFindings {function : Function} :
    (types.paramFindings function).Pairwise (·.line ≤ ·.line) ↔ types.FindsInOrder function :=
  List.pairwise_map

end TypeCheck

/-! ## Parameters in order -/

/-- Parameters that are found where they are declared are found in order. -/
theorem Function.Frame.findsInOrder {texts : List (List Char)} {function : Function}
    {frame : function.Frame texts} (ends : frame.Ends) (feedless : ∀ text ∈ texts, '\n' ∉ text)
    (code_eq : function.code = joinLines (function.extent.slice (mask texts)))
    {types : TypeCheck} (declares : types.Declares frame) : types.FindsInOrder function := by
  have sites := frame.params_eq ▸ Param.pairwise_sites frame.list
  refine (sites.filter _).imp_of_mem ?_
  intro a b a_mem b_mem ordered
  obtain ⟨a_listed, a_flagged⟩ := List.mem_filter.mp a_mem
  obtain ⟨b_listed, b_flagged⟩ := List.mem_filter.mp b_mem
  obtain ⟨a_named, a_clear⟩ := declares a a_listed a_flagged
  obtain ⟨b_named, b_clear⟩ := declares b b_listed b_flagged
  obtain ⟨first, second, leading⟩ := ordered a_named b_named
  have a_line := (ends.paramLine feedless code_eq a_named first).2 (a_clear first)
  have b_line := (ends.paramLine feedless code_eq b_named second).2 (b_clear second)
  have longer : frame.opening ++ '(' :: first.front <+: frame.opening ++ '(' :: second.front :=
    (List.prefix_append_right_inj _).mpr (List.cons_prefix_cons.mpr ⟨rfl, leading⟩)
  have feeds_le := lineFeeds_le_of_prefix longer
  omega

/-! ## Fields in front of parameters -/

namespace Contract

variable {source path : String} {contract : Contract} {texts : List (List Char)}

/-- A struct has no line in common with a function. -/
theorem LaidOut.disjoint (laid : contract.LaidOut texts) {struct : Struct}
    (struct_mem : struct ∈ contract.types) {function : Function}
    (function_mem : function ∈ contract.functions) :
    struct.extent.Disjoint function.extent := by
  obtain ⟨block, block_mem, listed⟩ := List.mem_flatMap.mp function_mem
  obtain ⟨first_lt, last_le⟩ := (laid.impls_laidOut block block_mem).functions_below function listed
  rcases laid.apart struct struct_mem block block_mem with above | below
  · exact .inl (Int.lt_trans above first_lt)
  · exact .inr (Int.lt_of_le_of_lt last_le below)

end Contract

namespace TypeCheck

variable {texts : List (List Char)} {contract : Contract} {types : TypeCheck}

/-- The fields of a struct are found in front of the parameters of a function exactly if the struct
stands above the function. -/
theorem across_iff (laid : contract.LaidOut texts) :
    (∀ upper ∈ contract.types.flatMap types.fieldFindings,
        ∀ lower ∈ contract.functions.flatMap types.paramFindings, upper.line ≤ lower.line) ↔
      ∀ struct ∈ contract.types, types.FlagsField struct →
        ∀ function ∈ contract.functions, types.FlagsParam function →
          struct.extent.Before function.extent := by
  have in_struct {struct : Struct} (mem : struct ∈ contract.types) {finding : Finding}
      (found : finding ∈ types.fieldFindings struct) : struct.extent.Holds finding.line := by
    obtain ⟨field, field_mem, -, line_eq⟩ := field_of_mem_fieldFindings found
    exact line_eq ▸ (laid.types_laidOut struct mem).fields_inside field field_mem
  constructor
  · intro ordered struct struct_mem flags_field function function_mem flags_param
    obtain ⟨upper, upper_mem⟩ := List.exists_mem_of_ne_nil _ (fieldFindings_ne_nil.mpr flags_field)
    obtain ⟨lower, lower_mem⟩ := List.exists_mem_of_ne_nil _ (paramFindings_ne_nil.mpr flags_param)
    have le := ordered upper (List.mem_flatMap.mpr ⟨struct, struct_mem, upper_mem⟩)
      lower (List.mem_flatMap.mpr ⟨function, function_mem, lower_mem⟩)
    -- the other way round, the field would stand below the parameter
    refine (laid.disjoint struct_mem function_mem).resolve_right fun above => ?_
    have param_le := (holds_of_mem_paramFindings lower_mem).2
    have le_field := (in_struct struct_mem upper_mem).1
    have lt := Int.lt_of_le_of_lt param_le (Int.lt_of_lt_of_le above le_field)
    exact absurd le (Int.not_le.mpr lt)
  · intro before upper upper_mem lower lower_mem
    obtain ⟨struct, struct_mem, upper_found⟩ := List.mem_flatMap.mp upper_mem
    obtain ⟨function, function_mem, lower_found⟩ := List.mem_flatMap.mp lower_mem
    have above := before struct struct_mem
      (fieldFindings_ne_nil.mp (List.ne_nil_of_mem upper_found)) function function_mem
      (paramFindings_ne_nil.mp (List.ne_nil_of_mem lower_found))
    have field_le := (in_struct struct_mem upper_found).2
    have le_param := (holds_of_mem_paramFindings lower_found).1
    exact Int.le_trans field_le (Int.le_trans (Int.le_of_lt above) le_param)

end TypeCheck

namespace Check

variable {contract : Contract} {check : Check} {types : TypeCheck}

theorem findings_of_typeCheck? (typed : check.typeCheck? = some types) (contract : Contract) :
    check.findings contract = types.findings contract ∧
      check.structFindings contract = types.fieldFindings ∧
      check.functionFindings = types.paramFindings := by
  cases check with
  | wideIntegers => exact Option.some.inj typed ▸ ⟨rfl, rfl, rfl⟩
  | ownedStrings => exact Option.some.inj typed ▸ ⟨rfl, rfl, rfl⟩
  | unusedState | repeatedStorage | unboundedLoop | stringBuilding | emptyVec => contradiction

end Check

namespace Contract

variable {source path : String} {contract : Contract}

/-- The checks for types report in source order exactly if every struct with a field to be avoided
stands above every function with a parameter to be avoided, and the parameters are found in order in
each function.  They are found in order where no text in front of them looks like their
declaration. -/
theorem typeFindings_of_parse (parsed : parse source path = .ok contract) {check : Check}
    {types : TypeCheck} (typed : check.typeCheck? = some types) (severity : Severity)
    (enabled : Bool) :
    ∃ violations, (check.rule severity enabled).apply contract = some violations ∧
      (violations.Pairwise (·.line ≤ ·.line) ↔
        (∀ struct ∈ contract.types, types.FlagsField struct →
          ∀ function ∈ contract.functions, types.FlagsParam function →
            struct.extent.Before function.extent) ∧
        ∀ function ∈ contract.functions, types.FindsInOrder function) ∧
      ∀ function ∈ contract.functions,
        Mask.behind .code ((linesOf source).take (function.line - 1).toNat) ≠ .block →
          ∀ frame : function.Frame (linesOf source), types.Declares frame →
            types.FindsInOrder function := by
  obtain ⟨outline, first, rest, rfl, -, -, contract_eq⟩ := parse_eq_ok parsed
  have laid : contract.LaidOut (linesOf source) :=
    contract_eq ▸ laidOut_scan first.name source path
  obtain ⟨found_eq, struct_eq, function_eq⟩ := Check.findings_of_typeCheck? typed contract
  have fields_ordered := Check.pairwise_structFindings laid check
  have params_ordered := Check.pairwise_functionFindings laid
    (fun function mem => aligned_of_parse parsed mem) check
  rw [struct_eq] at fields_ordered
  rw [function_eq] at params_ordered
  refine ⟨_, rfl, ?_, ?_⟩
  · rw [Rule.pairwise_report, found_eq, TypeCheck.findings, List.pairwise_append,
      and_iff_right fields_ordered, params_ordered, TypeCheck.across_iff laid, and_comm]
    simp only [TypeCheck.pairwise_paramFindings]
  · intro function mem closed frame declares
    have feedless : ∀ text ∈ linesOf source, '\n' ∉ text :=
      fun text mem => (oneLine_of_mem_splitLines mem).feedless
    obtain ⟨other, ends, code_eq⟩ := exists_frame_of_mem_functions parsed mem closed
    obtain rfl := other.unique feedless frame
    exact Function.Frame.findsInOrder ends feedless code_eq declares

/-- A field, and below it two parameters. -/
theorem typeFindings_structAbove :
    let struct := "struct A \x7b\n  x: u128,\n\x7d"
    let definition := "  fn f(\n    j: u128,\n    q: i128) \x7b \x7d"
    let block := "impl A \x7b\n" ++ definition ++ "\n\x7d"
    let source := "#[contracttype]\n" ++ struct ++ "\n#[contractimpl]\n" ++ block ++ "\n"
    let function : Function :=
      ⟨"f", [⟨"j", "u128"⟩, ⟨"q", "i128"⟩], none, .priv, false, 7, definition⟩
    let contract : Contract := ⟨"A", [⟨"A", [⟨"x", "u128", .priv, 3⟩], 2, struct⟩],
      [⟨"A", [function], 6, block⟩], source, "a.rs"⟩
    let rule := Check.wideIntegers.rule .info true
    parse source "a.rs" = .ok contract ∧
      Check.wideIntegers.typeCheck? = some .wideIntegers ∧ function ∈ contract.functions ∧
      (rule.apply contract).map (·.map (·.line)) = some [3, 8, 9] ∧
      (∃ frame : function.Frame (linesOf source), TypeCheck.wideIntegers.Declares frame) ∧
      ∃ violations, rule.apply contract = some violations ∧
        violations.Pairwise (·.line ≤ ·.line) := by
  intro struct definition block source function contract rule
  have parsed : parse source "a.rs" = .ok contract := by decide +kernel
  have mem : function ∈ contract.functions := List.mem_singleton.mpr rfl
  have lines : (rule.apply contract).map (·.map (·.line)) = some [3, 8, 9] := by decide +kernel
  have closed : Mask.behind .code ((linesOf source).take (function.line - 1).toNat) ≠ .block := by
    decide +kernel
  obtain ⟨frame, -, -⟩ := exists_frame_of_mem_functions parsed mem closed
  have declares : TypeCheck.wideIntegers.Declares frame := by
    -- each name is a character that stands nowhere else in the source
    have j_once : (joinLines (mask (linesOf source))).count 'j' = 1 := by decide +kernel
    have q_once : (joinLines (mask (linesOf source))).count 'q' = 1 := by decide +kernel
    intro param listed _
    simp only [function, List.mem_cons, List.not_mem_nil, or_false] at listed
    rcases listed with rfl | rfl
    · exact ⟨by decide, fun site =>
        frame.occursIn_declaration_of_count site (by decide) (c := 'j') (by decide) j_once⟩
    · exact ⟨by decide, fun site =>
        frame.occursIn_declaration_of_count site (by decide) (c := 'q') (by decide) q_once⟩
  have typed : Check.wideIntegers.typeCheck? = some .wideIntegers := rfl
  obtain ⟨violations, given, ordered_iff, in_order⟩ :=
    typeFindings_of_parse parsed typed .info true
  refine ⟨parsed, typed, mem, lines, ⟨frame, declares⟩, violations, given, ordered_iff.mpr ⟨?_, ?_⟩⟩
  · intro struct listed _ function listed' _
    obtain rfl := List.mem_singleton.mp listed
    obtain rfl := List.mem_singleton.mp listed'
    decide +kernel
  · intro function listed
    obtain rfl := List.mem_singleton.mp listed
    exact in_order _ mem closed frame declares

/-- A parameter, and below it a field, which is reported first. -/
theorem typeFindings_structBelow :
    let definition := "  fn f(a: u128) \x7b \x7d"
    let block := "impl A \x7b\n" ++ definition ++ "\n\x7d"
    let struct := "struct A \x7b x: u128 \x7d"
    let source := "#[contractimpl]\n" ++ block ++ "\n#[contracttype]\n" ++ struct ++ "\n"
    let function : Function := ⟨"f", [⟨"a", "u128"⟩], none, .priv, false, 3, definition⟩
    let contract : Contract := ⟨"A", [⟨"A", [⟨"x", "u128", .priv, 6⟩], 6, struct⟩],
      [⟨"A", [function], 2, block⟩], source, "a.rs"⟩
    let rule := Check.wideIntegers.rule .info true
    parse source "a.rs" = .ok contract ∧
      ∃ violations, rule.apply contract = some violations ∧
        violations.map (·.line) = [6, 3] ∧ ¬violations.Pairwise (·.line ≤ ·.line) := by
  intro definition block struct source function contract rule
  have parsed : parse source "a.rs" = .ok contract := by decide +kernel
  have lines : (rule.apply contract).map (·.map (·.line)) = some [6, 3] := by decide +kernel
  obtain ⟨violations, given, lines_eq⟩ := Option.map_eq_some_iff.mp lines
  refine ⟨parsed, violations, given, lines_eq, fun ordered => ?_⟩
  have lines_ordered : (violations.map (·.line)).Pairwise (· ≤ ·) := List.pairwise_map.mpr ordered
  rw [lines_eq] at lines_ordered
  exact absurd lines_ordered (by decide)

end Contract
end SorobanLint
