import SorobanLint.Engine
import SorobanLint.Proofs.Shift.Contract

/-!
# Findings in a moved contract

No check looks at the number of a line: when a contract is moved down, each check finds the same as
before, further down (`Check.findings_shift`).
-/

namespace SorobanLint

open Text

variable {k : Nat}

/-- The finding further down by `k`. -/
def Finding.shift (k : Nat) (finding : Finding) : Finding :=
  { finding with line := finding.line + k }

/-! ## Declarations -/

namespace Contract

variable (source : String) (contract : Contract)

theorem functions_shift :
    (contract.shift k source).functions = contract.functions.map (·.shift k) := by
  simp only [functions, shift, List.flatMap_map, List.map_flatMap]
  rfl

end Contract

namespace Function

@[simp]
theorem shift_name (function : Function) : (function.shift k).name = function.name := rfl

@[simp]
theorem shift_params (function : Function) : (function.shift k).params = function.params := rfl

@[simp]
theorem shift_code (function : Function) : (function.shift k).code = function.code := rfl

@[simp]
theorem shift_codeLines (function : Function) :
    (function.shift k).codeLines = function.codeLines := rfl

theorem lineAt_shift (function : Function) (place : Place) :
    (function.shift k).lineAt place = function.lineAt place + k :=
  Int.add_right_comm function.line k place.line

theorem paramLine_shift (function : Function) (param : Param) :
    (function.shift k).paramLine param = function.paramLine param + k := by
  simp only [paramLine, shift_code]
  split
  · exact Int.add_right_comm function.line k _
  · rfl

end Function

/-! ## Sorting -/

namespace Order

theorem insert_map {α β : Type} {le : α → α → Bool} {le' : β → β → Bool} {f : α → β}
    (same : ∀ a b, le' (f a) (f b) = le a b) (a : α) (list : List α) :
    insert le' (f a) (list.map f) = (insert le a list).map f := by
  induction list with
  | nil => rfl
  | cons b rest ih =>
      rw [List.map_cons, insert, insert, same]
      split
      · rfl
      · rw [ih, List.map_cons]

/-- Sorting commutes with a map that keeps the order. -/
theorem sort_map {α β : Type} {le : α → α → Bool} {le' : β → β → Bool} {f : α → β}
    (same : ∀ a b, le' (f a) (f b) = le a b) (list : List α) :
    sort le' (list.map f) = (sort le list).map f := by
  induction list with
  | nil => rfl
  | cons a rest ih =>
      simp only [sort, List.map_cons, List.foldr_cons] at ih ⊢
      rw [ih, insert_map same]

end Order

/-! ## Checks about declarations -/

namespace UnusedState

theorem findings_shift (source : String) (contract : Contract) :
    findings (contract.shift k source) = (findings contract).map (·.shift k) := by
  have codes : (contract.shift k source).functions.map (·.code) =
      contract.functions.map (·.code) := by
    rw [Contract.functions_shift, List.map_map]
    rfl
  simp only [findings, codes]
  simp only [Contract.shift, List.flatMap_map, List.map_flatMap, Struct.shift, List.filter_map,
    List.map_map]
  rfl

end UnusedState

namespace TypeCheck

variable (check : TypeCheck)

theorem findings_shift (source : String) (contract : Contract) :
    check.findings (contract.shift k source) = (check.findings contract).map (·.shift k) := by
  have params (function : Function) :
      check.paramFindings (function.shift k) = (check.paramFindings function).map (·.shift k) := by
    simp only [paramFindings, Function.shift_params, Function.shift_name, Function.paramLine_shift,
      List.map_map]
    rfl
  have fields (struct : Struct) :
      check.fieldFindings (struct.shift k) = (check.fieldFindings struct).map (·.shift k) := by
    simp only [fieldFindings, Struct.shift, List.filter_map, List.map_map]
    rfl
  rw [findings, Contract.functions_shift, List.flatMap_map]
  simp only [findings, params, Contract.shift, List.flatMap_map, fields, List.map_append,
    List.map_flatMap]

end TypeCheck

/-! ## Checks about bodies -/

namespace RepeatedStorage

theorem functionFindings_shift (function : Function) :
    functionFindings (function.shift k) = (functionFindings function).map (·.shift k) := by
  have found (group : LookupGroup) :
      group.finding? (function.shift k) = (group.finding? function).map (·.shift k) := by
    unfold LookupGroup.finding?
    split
    · split
      · rfl
      · simp [Function.lineAt_shift, Finding.shift]
    · rfl
  simp only [functionFindings, Function.shift_code, found, List.map_filterMap]

theorem findings_shift (source : String) (contract : Contract) :
    findings (contract.shift k source) = (findings contract).map (·.shift k) := by
  simp only [findings, Contract.functions_shift, List.flatMap_map, functionFindings_shift,
    ← List.map_flatMap]
  refine Order.sort_map ?_ _
  intro a b
  simp [Finding.shift]

end RepeatedStorage

namespace UnboundedLoop

theorem functionFindings_shift (function : Function) :
    functionFindings (function.shift k) = (functionFindings function).map (·.shift k) := by
  have names : unboundedNames (function.shift k) = unboundedNames function := rfl
  simp only [functionFindings, names]
  split
  · rfl
  · simp only [Function.shift_name, Function.shift_code, Function.lineAt_shift, List.map_map]
    rfl

theorem findings_shift (source : String) (contract : Contract) :
    findings (contract.shift k source) = (findings contract).map (·.shift k) := by
  simp only [findings, Contract.functions_shift, List.flatMap_map, functionFindings_shift,
    List.map_flatMap]

end UnboundedLoop

namespace StringBuilding

theorem lineFindings_shift (function : Function) (index : Nat) (lines : List (List Char)) :
    lineFindings (function.shift k) index lines =
      (lineFindings function index lines).map (·.shift k) := by
  have found (index : Nat) (line : List Char) :
      lineFinding? (function.shift k) index line =
        (lineFinding? function index line).map (·.shift k) := by
    unfold lineFinding?
    split
    · rfl
    · simp [Function.shift, Finding.shift, Int.add_right_comm]
  induction lines generalizing index with
  | nil => rfl
  | cons line rest ih =>
      rw [lineFindings, lineFindings, found, ih, List.map_append, Option.toList_map]

theorem findings_shift (source : String) (contract : Contract) :
    findings (contract.shift k source) = (findings contract).map (·.shift k) := by
  simp only [findings, Contract.functions_shift, List.flatMap_map, Function.shift_codeLines,
    lineFindings_shift, List.map_flatMap]

end StringBuilding

namespace EmptyVec

theorem functionFindings_shift (function : Function) :
    functionFindings (function.shift k) = (functionFindings function).map (·.shift k) := by
  simp only [functionFindings, Function.shift_name, Function.shift_code, Function.lineAt_shift,
    List.map_map]
  rfl

theorem findings_shift (source : String) (contract : Contract) :
    findings (contract.shift k source) = (findings contract).map (·.shift k) := by
  simp only [findings, Contract.functions_shift, List.flatMap_map, functionFindings_shift,
    List.map_flatMap]

end EmptyVec

/-! ## All checks -/

namespace Check

/-- In a contract that is moved down, a check finds the same as before, further down. -/
theorem findings_shift (check : Check) (source : String) (contract : Contract) :
    check.findings (contract.shift k source) = (check.findings contract).map (·.shift k) := by
  cases check with
  | unusedState => exact UnusedState.findings_shift source contract
  | wideIntegers => exact TypeCheck.wideIntegers.findings_shift source contract
  | ownedStrings => exact TypeCheck.ownedStrings.findings_shift source contract
  | repeatedStorage => exact RepeatedStorage.findings_shift source contract
  | unboundedLoop => exact UnboundedLoop.findings_shift source contract
  | stringBuilding => exact StringBuilding.findings_shift source contract
  | emptyVec => exact EmptyVec.findings_shift source contract

end Check
end SorobanLint
