import SorobanLint.Proofs.Layout
import SorobanLint.Proofs.Pattern
import SorobanLint.Rule.Catalog

/-!
# Where findings stand

A check goes through the structs and the functions of a contract, and finds something about one of
them at a time (`Check.mem_findings_iff`).  What it finds about a struct stands on the line of a
field.  What it finds about a function stands at a place of the function's code, whose line is
counted in the code: if the code has as many lines as the definition, this is one of the
function's lines (`Check.holds_of_mem_functionFindings`).
-/

namespace SorobanLint

open Text

/-! ## Places of matches -/

/-- The place lies in the text. -/
def Place.In (text : List Char) (place : Place) : Prop :=
  place.textBefore ++ place.after = text

namespace Place

variable {text : List Char} {place : Place}

theorem In.offset_le (inside : place.In text) : place.offset ≤ text.length := by
  rw [← inside, List.length_append, textBefore, List.length_reverse]
  exact Nat.le_add_right _ _

theorem line_eq (place : Place) : place.line = lineFeeds place.textBefore :=
  List.count_reverse.symm

theorem In.line_le (inside : place.In text) : place.line ≤ lineFeeds text := by
  rw [place.line_eq]
  exact lineFeeds_le_of_prefix ⟨place.after, inside⟩

/-- Of two places of a text, the one behind is on no line above. -/
theorem In.line_le_of_offset_le {other : Place} (inside : place.In text)
    (other_inside : other.In text) (le : place.offset ≤ other.offset) :
    place.line ≤ other.line := by
  have leading : place.textBefore <+: text := ⟨place.after, inside⟩
  have other_leading : other.textBefore <+: text := ⟨other.after, other_inside⟩
  have lengths : place.textBefore.length ≤ other.textBefore.length := by
    rw [textBefore, textBefore, List.length_reverse, List.length_reverse]
    exact le
  rw [place.line_eq, other.line_eq]
  exact lineFeeds_le_of_prefix (List.prefix_of_prefix_length_le leading other_leading lengths)

/-- A text has one place for each offset. -/
theorem In.eq_of_offset_eq {other : Place} (inside : place.In text) (other_inside : other.In text)
    (same : place.offset = other.offset) : place = other := by
  have lengths : place.textBefore.length = other.textBefore.length := by
    rw [textBefore, textBefore, List.length_reverse, List.length_reverse]
    exact same
  obtain ⟨before_eq, after_eq⟩ := List.append_inj (inside.trans other_inside.symm) lengths
  have before_eq := List.reverse_injective before_eq
  cases place
  cases other
  exact congrArg₂ Place.mk before_eq after_eq

end Place

namespace Pattern

variable {pattern : Pattern} {before after text : List Char} {found : Match}

theorem in_of_searchFrom? (searched : pattern.searchFrom? before after = some found) :
    found.start.In (before.reverse ++ after) := by
  induction after generalizing before with
  | nil => rw [start_of_matchAt? searched, Place.In, Place.textBefore]
  | cons c rest ih =>
      rw [searchFrom?] at searched
      split at searched
      next matched =>
        obtain rfl := Option.some.inj searched
        rw [start_of_matchAt? matched, Place.In, Place.textBefore]
      next =>
        have inside := ih searched
        rwa [List.reverse_cons, List.append_assoc] at inside

/-- A search finds a match at a place of the text. -/
theorem in_of_search? (searched : pattern.search? text = some found) : found.start.In text :=
  in_of_searchFrom? searched

theorem in_of_mem_findFrom {skip : Nat} (mem : found ∈ pattern.findFrom skip before after) :
    found.start.In (before.reverse ++ after) := by
  -- the text stays the same while its characters move from behind the place to before it
  have moved (c : Char) (before rest : List Char) :
      (c :: before).reverse ++ rest = before.reverse ++ c :: rest := by simp
  fun_induction findFrom pattern skip before after with
  | case1 => contradiction
  | case2 skip before c rest ih => exact moved c before rest ▸ ih mem
  | case3 before c rest first matched ih =>
      rcases List.mem_cons.mp mem with rfl | mem
      · rw [start_of_matchAt? matched, Place.In, Place.textBefore]
      · exact moved c before rest ▸ ih mem
  | case4 before c rest unmatched ih => exact moved c before rest ▸ ih mem

/-- All matches stand at places of the text. -/
theorem in_of_mem_findAll (mem : found ∈ pattern.findAll text) : found.start.In text :=
  in_of_mem_findFrom mem

theorem matchAt?_of_mem_findFrom {skip : Nat} (mem : found ∈ pattern.findFrom skip before after) :
    pattern.matchAt? found.start = some found := by
  fun_induction findFrom pattern skip before after with
  | case1 => contradiction
  | case2 skip before c rest ih => exact ih mem
  | case3 before c rest first matched ih =>
      rcases List.mem_cons.mp mem with rfl | mem
      · rw [start_of_matchAt? matched, matched]
      · exact ih mem
  | case4 before c rest unmatched ih => exact ih mem

theorem matchAt?_of_mem_findAll (mem : found ∈ pattern.findAll text) :
    pattern.matchAt? found.start = some found :=
  matchAt?_of_mem_findFrom mem

theorem offset_le_of_mem_findFrom {skip : Nat} (mem : found ∈ pattern.findFrom skip before after) :
    before.length ≤ found.start.offset := by
  fun_induction findFrom pattern skip before after with
  | case1 => contradiction
  | case2 skip before c rest ih => exact Nat.le_of_succ_le (ih mem)
  | case3 before c rest first matched ih =>
      rcases List.mem_cons.mp mem with rfl | mem
      · rw [start_of_matchAt? matched, Place.offset]
      · exact Nat.le_of_succ_le (ih mem)
  | case4 before c rest unmatched ih => exact Nat.le_of_succ_le (ih mem)

theorem pairwise_findFrom (pattern : Pattern) (skip : Nat) (before after : List Char) :
    (pattern.findFrom skip before after).Pairwise (·.start.offset < ·.start.offset) := by
  fun_induction findFrom pattern skip before after with
  | case1 => exact List.Pairwise.nil
  | case2 skip before c rest ih => exact ih
  | case3 before c rest first matched ih =>
      refine List.pairwise_cons.mpr ⟨?_, ih⟩
      intro later mem
      -- what is found later begins behind the character at which the first match begins
      have behind := offset_le_of_mem_findFrom mem
      rw [List.length_cons] at behind
      rw [start_of_matchAt? matched]
      exact behind
  | case4 before c rest unmatched ih => exact ih

/-- Matches are found from left to right. -/
theorem pairwise_findAll (pattern : Pattern) (text : List Char) :
    (pattern.findAll text).Pairwise (·.start.offset < ·.start.offset) :=
  pairwise_findFrom pattern 0 [] text

end Pattern

/-! ## Lines of a function -/

namespace Function

/-- The code of a function has the lines that the line feeds of its definition make. -/
def Aligned (function : Function) : Prop :=
  function.codeLines.length = lineFeeds function.definition.toList + 1

variable {function : Function}

theorem feedless_codeLines (function : Function) : ∀ text ∈ function.codeLines, '\n' ∉ text :=
  Mask.feedless_linesFrom (fun _ mem => (oneLine_of_mem_splitLines mem).feedless) .code

theorem Aligned.lineFeeds_code (aligned : function.Aligned) :
    lineFeeds function.code = lineFeeds function.definition.toList := by
  have nonempty : function.codeLines ≠ [] := List.ne_nil_of_length_eq_add_one aligned
  obtain ⟨first, rest, lines_eq⟩ := List.exists_cons_of_ne_nil nonempty
  have feedless := function.feedless_codeLines
  rw [Aligned, lines_eq, List.length_cons] at aligned
  rw [lines_eq, List.forall_mem_cons] at feedless
  rw [code, lines_eq, lineFeeds_joinLines feedless.1 feedless.2]
  exact Nat.succ.inj aligned

/-- A line of the function by its index. -/
theorem holds_line_add {index : Nat} (within : index ≤ lineFeeds function.definition.toList) :
    function.extent.Holds (function.line + index) := by
  constructor
  · exact Int.le_add_of_nonneg_right (Int.natCast_nonneg index)
  · exact Int.add_le_add_left (Int.ofNat_le.mpr within) function.line

theorem Aligned.holds_lineAt (aligned : function.Aligned) {place : Place}
    (inside : place.In function.code) : function.extent.Holds (function.lineAt place) :=
  holds_line_add (aligned.lineFeeds_code ▸ inside.line_le)

theorem holds_paramLine (function : Function) (param : Param) :
    function.extent.Holds (function.paramLine param) := by
  simp only [paramLine]
  split
  next found searched =>
    have leading := List.take_prefix found.start.offset function.definition.toList
    apply holds_line_add
    exact lineFeeds_le_of_prefix leading
  next =>
    have first : function.extent.Holds (function.line + 0) := holds_line_add (Nat.zero_le _)
    rwa [Int.add_zero] at first

end Function

/-! ## Findings about one struct or function -/

namespace UnusedState

theorem field_of_mem_findings {contract : Contract} {finding : Finding}
    (mem : finding ∈ findings contract) :
    ∃ struct ∈ contract.types, ∃ field ∈ struct.fields,
      finding.variableName = field.name ∧ finding.line = field.line := by
  simp only [findings, List.mem_flatMap, List.mem_map, List.mem_filter] at mem
  obtain ⟨struct, struct_mem, field, ⟨field_mem, -⟩, rfl⟩ := mem
  exact ⟨struct, struct_mem, field, field_mem, rfl, rfl⟩

end UnusedState

namespace TypeCheck

variable {check : TypeCheck} {finding : Finding}

theorem field_of_mem_fieldFindings {struct : Struct} (mem : finding ∈ check.fieldFindings struct) :
    ∃ field ∈ struct.fields, finding.variableName = field.name ∧ finding.line = field.line := by
  obtain ⟨field, field_mem, rfl⟩ := List.mem_map.mp mem
  exact ⟨field, List.mem_of_mem_filter field_mem, rfl, rfl⟩

theorem holds_of_mem_paramFindings {function : Function}
    (mem : finding ∈ check.paramFindings function) : function.extent.Holds finding.line := by
  obtain ⟨param, -, rfl⟩ := List.mem_map.mp mem
  exact function.holds_paramLine param

end TypeCheck

namespace RepeatedStorage

theorem start_of_ofMatch? {found : Match} {lookup : Lookup}
    (made : Lookup.ofMatch? found = some lookup) : lookup.start = found.start := by
  simp only [Lookup.ofMatch?, Option.bind_eq_bind, Option.bind_eq_some_iff] at made
  obtain ⟨place, -, args, -, made⟩ := made
  rw [← Option.some.inj made]

theorem in_of_mem_all {code : List Char} {lookup : Lookup} (mem : lookup ∈ Lookup.all code) :
    lookup.start.In code := by
  obtain ⟨found, found_mem, made⟩ := List.mem_filterMap.mp mem
  rw [start_of_ofMatch? made]
  exact (List.mem_append.mp found_mem).elim Pattern.in_of_mem_findAll Pattern.in_of_mem_findAll

theorem holds_of_mem_functionFindings {function : Function} (aligned : function.Aligned)
    {finding : Finding} (mem : finding ∈ functionFindings function) :
    function.extent.Holds finding.line := by
  obtain ⟨group, group_mem, made⟩ := List.mem_filterMap.mp mem
  obtain ⟨expression, -, rfl⟩ := List.mem_map.mp group_mem
  rw [LookupGroup.finding?] at made
  split at made
  next first second rest lookups_eq =>
    split at made
    · cases made
    · obtain rfl := Option.some.inj made
      have second_mem : second ∈ first :: second :: rest :=
        List.mem_cons_of_mem _ List.mem_cons_self
      rw [← lookups_eq, (Order.sort_perm _ _).mem_iff] at second_mem
      exact aligned.holds_lineAt (in_of_mem_all (List.mem_of_mem_filter second_mem))
  next => cases made

end RepeatedStorage

namespace UnboundedLoop

theorem in_of_mem_all {code : List Char} {loop : Loop} (mem : loop ∈ Loop.all code) :
    loop.start.In code := by
  rw [Loop.all, (Order.sort_perm _ _).mem_iff, List.mem_append] at mem
  rcases mem with mem | mem
  · obtain ⟨found, found_mem, made⟩ := List.mem_filterMap.mp mem
    obtain ⟨name, -, rfl⟩ := Option.map_eq_some_iff.mp made
    exact Pattern.in_of_mem_findAll found_mem
  · obtain ⟨found, found_mem, rfl⟩ := List.mem_map.mp mem
    exact Pattern.in_of_mem_findAll found_mem

theorem holds_of_mem_functionFindings {function : Function} (aligned : function.Aligned)
    {finding : Finding} (mem : finding ∈ functionFindings function) :
    function.extent.Holds finding.line := by
  rw [functionFindings] at mem
  split at mem
  · cases mem
  · obtain ⟨loop, loop_mem, rfl⟩ := List.mem_map.mp mem
    exact aligned.holds_lineAt (in_of_mem_all (List.mem_of_mem_filter loop_mem))

end UnboundedLoop

namespace StringBuilding

theorem line_of_mem_lineFindings {function : Function} {index : Nat} {lines : List (List Char)}
    {finding : Finding} (mem : finding ∈ lineFindings function index lines) :
    ∃ below < lines.length, finding.line = function.line + (index + below : Nat) := by
  induction lines generalizing index with
  | nil => contradiction
  | cons line rest ih =>
      rw [lineFindings, List.mem_append, Option.mem_toList] at mem
      rcases mem with made | mem
      · rw [lineFinding?] at made
        split at made
        · cases made
        · obtain rfl := Option.some.inj made
          exact ⟨0, Nat.succ_pos _, rfl⟩
      · obtain ⟨below, lt, line_eq⟩ := ih mem
        refine ⟨below + 1, Nat.succ_lt_succ lt, ?_⟩
        rw [line_eq, Nat.add_assoc, Nat.add_comm 1]

theorem holds_of_mem_functionFindings {function : Function} (aligned : function.Aligned)
    {finding : Finding} (mem : finding ∈ lineFindings function 0 function.codeLines) :
    function.extent.Holds finding.line := by
  obtain ⟨index, lt, line_eq⟩ := line_of_mem_lineFindings mem
  rw [aligned] at lt
  rw [line_eq, Nat.zero_add]
  exact Function.holds_line_add (Nat.le_of_lt_succ lt)

end StringBuilding

namespace EmptyVec

theorem holds_of_mem_functionFindings {function : Function} (aligned : function.Aligned)
    {finding : Finding} (mem : finding ∈ functionFindings function) :
    function.extent.Holds finding.line := by
  obtain ⟨found, found_mem, rfl⟩ := List.mem_map.mp mem
  exact aligned.holds_lineAt (Pattern.in_of_mem_findAll (List.mem_of_mem_filter found_mem))

end EmptyVec

namespace Check

/-- What a check finds about a struct of a contract. -/
def structFindings : Check → Contract → Struct → List Finding
  | unusedState => fun contract struct => UnusedState.findings { contract with types := [struct] }
  | wideIntegers => fun _ => TypeCheck.wideIntegers.fieldFindings
  | ownedStrings => fun _ => TypeCheck.ownedStrings.fieldFindings
  | repeatedStorage | unboundedLoop | stringBuilding | emptyVec => fun _ _ => []

/-- What a check finds about a function. -/
def functionFindings : Check → Function → List Finding
  | unusedState => fun _ => []
  | wideIntegers => TypeCheck.wideIntegers.paramFindings
  | ownedStrings => TypeCheck.ownedStrings.paramFindings
  | repeatedStorage => RepeatedStorage.functionFindings
  | unboundedLoop => UnboundedLoop.functionFindings
  | stringBuilding => fun function => StringBuilding.lineFindings function 0 function.codeLines
  | emptyVec => EmptyVec.functionFindings

variable {check : Check} {contract : Contract} {finding : Finding}

/-- A check finds what it finds about the structs and about the functions. -/
theorem mem_findings_iff :
    finding ∈ check.findings contract ↔
      (∃ struct ∈ contract.types, finding ∈ check.structFindings contract struct) ∨
        ∃ function ∈ contract.functions, finding ∈ check.functionFindings function := by
  have in_functions {find : Function → List Finding} :
      finding ∈ contract.functions.flatMap find ↔
        (∃ struct ∈ contract.types, finding ∈ ([] : List Finding)) ∨
          ∃ function ∈ contract.functions, finding ∈ find function := by
    simp
  have by_type (check : TypeCheck) :
      finding ∈ check.findings contract ↔
        (∃ struct ∈ contract.types, finding ∈ check.fieldFindings struct) ∨
          ∃ function ∈ contract.functions, finding ∈ check.paramFindings function := by
    rw [TypeCheck.findings, List.mem_append, List.mem_flatMap, List.mem_flatMap]
  cases check with
  | unusedState =>
      simp [findings, structFindings, functionFindings, UnusedState.findings, Contract.functions]
  | wideIntegers => exact by_type .wideIntegers
  | ownedStrings => exact by_type .ownedStrings
  | repeatedStorage => exact (Order.sort_perm _ _).mem_iff.trans in_functions
  | unboundedLoop => exact in_functions
  | stringBuilding => exact in_functions
  | emptyVec => exact in_functions

/-- What is found about a struct is about one of its fields, on the line of that field. -/
theorem field_of_mem_structFindings {struct : Struct}
    (mem : finding ∈ check.structFindings contract struct) :
    ∃ field ∈ struct.fields, finding.variableName = field.name ∧ finding.line = field.line := by
  cases check with
  | unusedState =>
      obtain ⟨other, other_mem, found⟩ := UnusedState.field_of_mem_findings mem
      obtain rfl := List.mem_singleton.mp other_mem
      exact found
  | wideIntegers => exact TypeCheck.field_of_mem_fieldFindings mem
  | ownedStrings => exact TypeCheck.field_of_mem_fieldFindings mem
  | repeatedStorage | unboundedLoop | stringBuilding | emptyVec => contradiction

/-- What is found about a function stands on one of its lines. -/
theorem holds_of_mem_functionFindings {function : Function} (aligned : function.Aligned)
    (mem : finding ∈ check.functionFindings function) : function.extent.Holds finding.line := by
  cases check with
  | unusedState => contradiction
  | wideIntegers => exact TypeCheck.holds_of_mem_paramFindings mem
  | ownedStrings => exact TypeCheck.holds_of_mem_paramFindings mem
  | repeatedStorage => exact RepeatedStorage.holds_of_mem_functionFindings aligned mem
  | unboundedLoop => exact UnboundedLoop.holds_of_mem_functionFindings aligned mem
  | stringBuilding => exact StringBuilding.holds_of_mem_functionFindings aligned mem
  | emptyVec => exact EmptyVec.holds_of_mem_functionFindings aligned mem

end Check
end SorobanLint
