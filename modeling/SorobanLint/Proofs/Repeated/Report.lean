import SorobanLint.Proofs.Ordered.Findings
import SorobanLint.Proofs.Repeated.Lookup

/-!
# Reports of repeated lookups

In each function by itself, one finding is made for each expression that is looked up at least
twice there and whose first lookup no `let` on its line binds (`Contract.repeatedStorage_reported`).
It stands on the line of the second lookup.
-/

namespace SorobanLint

open Text

namespace RepeatedStorage

/-- The lookups of a text that make the expression, from left to right. -/
structure Occurrences (code expression : List Char) (lookups : List Lookup) : Prop where
  ordered : lookups.Pairwise (·.start.offset < ·.start.offset)
  mem_iff : ∀ lookup, lookup ∈ lookups ↔
    Nonempty (Site code lookup) ∧ lookup.expression = expression

/-- What is said about an expression that is looked up so many times in a function. -/
def repetitionText (function : Function) (expression : List Char) (count : Nat) : String :=
  let expression := String.ofList expression
  s!"Storage lookup `{expression}` is evaluated {count} times in '{function.name}'"

/-- The finding about an expression that is looked up so many times in a function, the second time
by the given lookup. -/
def repetition (function : Function) (expression : List Char) (count : Nat) (second : Lookup) :
    Finding where
  description := repetitionText function expression count
  line := function.lineAt second.start
  variableName := String.ofList second.label
  suggestion := "Read the value once into a local binding and reuse it"

/-- The expression is looked up at least twice in the function, no `let` on the line of the first
lookup binds it, and the finding is about the second one. -/
def Reported (function : Function) (expression : List Char) (finding : Finding) : Prop :=
  ∃ first second later, Occurrences function.code expression (first :: second :: later) ∧
    letBinding.occursIn first.start.lineBefore = false ∧
    finding = repetition function expression (later.length + 2) second

variable {code expression : List Char} {lookups : List Lookup}

namespace Occurrences

theorem unique {others : List Lookup} (occurrences : Occurrences code expression lookups)
    (same : Occurrences code expression others) : lookups = others := by
  have : Std.Antisymm fun a b : Lookup => a.start.offset < b.start.offset :=
    ⟨fun _ _ before behind => absurd before (Nat.lt_asymm behind)⟩
  have : Std.Irrefl fun a b : Lookup => a.start.offset < b.start.offset :=
    ⟨fun a => Nat.lt_irrefl a.start.offset⟩
  refine List.Pairwise.eq_of_mem_iff occurrences.ordered same.ordered fun lookup => ?_
  rw [occurrences.mem_iff, same.mem_iff]

/-- The lookups that are grouped under an expression. -/
theorem of_sort (code expression : List Char) :
    Occurrences code expression (Order.sort (fun a b => a.start.offset ≤ b.start.offset)
      ((Lookup.all code).filter (·.expression = expression))) where
  ordered := by
    apply Order.pairwise_lt_sort_by (fun lookup : Lookup => lookup.start.offset)
    exact (nodup_offsets code).sublist (List.filter_sublist.map _)
  mem_iff := by
    intro lookup
    rw [(Order.sort_perm _ _).mem_iff, List.mem_filter, mem_all_iff, decide_eq_true_iff]

theorem exists_pair {front next : List Char}
    (starts : (Order.sort (fun a b : Lookup => a.start.offset ≤ b.start.offset)
      ((Lookup.all code).filter (·.expression = expression))).map (·.start.textBefore) =
        [front, next]) :
    ∃ first second, Occurrences code expression [first, second] ∧
      first.start.textBefore = front := by
  have occurrences := of_sort code expression
  obtain ⟨first, later, lookups_eq, start_eq, later_eq⟩ := List.map_eq_cons_iff.mp starts
  obtain ⟨second, rest, rfl, -, rest_eq⟩ := List.map_eq_cons_iff.mp later_eq
  obtain rfl := List.map_eq_nil_iff.mp rest_eq
  exact ⟨first, second, lookups_eq ▸ occurrences, start_eq⟩

end Occurrences

theorem nodup_eraseDups {α : Type} [BEq α] [LawfulBEq α] :
    (list : List α) → list.eraseDups.Nodup
  | [] => List.nodup_nil
  | a :: rest => by
      rw [List.eraseDups_cons, List.nodup_cons]
      exact ⟨by simp, nodup_eraseDups _⟩
termination_by list => list.length
decreasing_by exact Nat.lt_succ_of_le (List.length_filter_le _ rest)

/-- The findings about a function, each with its expression. -/
def reports (function : Function) : List (List Char × Finding) :=
  (LookupGroup.collect (Lookup.all function.code)).filterMap fun group =>
    (group.finding? function).map (group.expression, ·)

variable {function : Function} {finding : Finding}

theorem map_snd_reports (function : Function) :
    (reports function).map (·.2) = functionFindings function := by
  rw [reports, List.map_filterMap, functionFindings]
  congr 1
  funext group
  cases group.finding? function <;> rfl

/-- No expression is reported twice. -/
theorem nodup_fst_reports (function : Function) : ((reports function).map (·.1)).Nodup := by
  have groups_apart : (LookupGroup.collect (Lookup.all function.code)).Pairwise
      (·.expression ≠ ·.expression) :=
    List.pairwise_map.mpr (nodup_eraseDups _)
  rw [List.Nodup, List.pairwise_map, reports, List.pairwise_filterMap]
  refine groups_apart.imp ?_
  intro group other apart report made next next_made
  obtain ⟨finding, -, rfl⟩ := Option.map_eq_some_iff.mp made
  obtain ⟨finding, -, rfl⟩ := Option.map_eq_some_iff.mp next_made
  exact apart

theorem finding?_eq_some_iff {group : LookupGroup} :
    group.finding? function = some finding ↔ ∃ first second later,
      group.lookups = first :: second :: later ∧
      letBinding.occursIn first.start.lineBefore = false ∧
      finding = repetition function group.expression (later.length + 2) second := by
  rw [LookupGroup.finding?]
  split
  next first second later lookups_eq =>
    have cached_eq : first.isCached = letBinding.occursIn first.start.lineBefore := rfl
    rw [lookups_eq, cached_eq]
    cases bound : letBinding.occursIn first.start.lineBefore with
    | true =>
        rw [if_pos rfl]
        constructor
        · intro made
          contradiction
        · rintro ⟨_, _, _, ⟨⟩, unbound, -⟩
          exact absurd (bound.symm.trans unbound) (by decide)
    | false =>
        rw [if_neg (by decide)]
        constructor
        · intro made
          exact ⟨first, second, later, rfl, bound, (Option.some.inj made).symm⟩
        · rintro ⟨_, _, _, ⟨⟩, -, rfl⟩
          rfl
  next short =>
    constructor
    · intro made
      contradiction
    · rintro ⟨first, second, later, lookups_eq, -⟩
      exact absurd lookups_eq (short first second later)

/-- What is reported about a function. -/
theorem mem_reports_iff :
    (expression, finding) ∈ reports function ↔ Reported function expression finding := by
  simp only [reports, LookupGroup.collect, List.mem_filterMap, List.mem_map, List.mem_eraseDups,
    Option.map_eq_some_iff]
  constructor
  · rintro ⟨group, ⟨expression, -, rfl⟩, made, given, pair_eq⟩
    obtain ⟨rfl, rfl⟩ := Prod.mk.inj pair_eq
    obtain ⟨first, second, later, lookups_eq, unbound, rfl⟩ := finding?_eq_some_iff.mp given
    have occurrences := Occurrences.of_sort function.code expression
    dsimp only at lookups_eq
    rw [lookups_eq] at occurrences
    exact ⟨first, second, later, occurrences, unbound, rfl⟩
  · rintro ⟨first, second, later, occurrences, unbound, rfl⟩
    have lookups_eq := (Occurrences.of_sort function.code expression).unique occurrences
    obtain ⟨site, expression_eq⟩ := (occurrences.mem_iff first).mp List.mem_cons_self
    refine ⟨_, ⟨expression, ⟨first, mem_all_iff.mpr site, expression_eq⟩, rfl⟩, _,
      finding?_eq_some_iff.mpr ⟨first, second, later, lookups_eq, unbound, rfl⟩, rfl⟩

end RepeatedStorage

namespace Contract

open RepeatedStorage

/-- The check for repeated storage access reports function by function.  For each function it makes
one violation for each expression that is looked up there at least twice and that no `let` on the
line of its first lookup binds, and no other; the violations come in the order of their lines. -/
theorem repeatedStorage_reported (contract : Contract) (severity : Severity) (enabled : Bool) :
    ∃ (violations : List Violation) (reports : Function → List (List Char × Finding)),
      (Check.repeatedStorage.rule severity enabled).apply contract = some violations ∧
      violations.Pairwise (·.line ≤ ·.line) ∧
      violations.Perm (contract.functions.flatMap fun function =>
        (reports function).map fun report =>
          report.2.toViolation Check.repeatedStorage.id severity (linesOf contract.source)) ∧
      ∀ function, ((reports function).map (·.1)).Nodup ∧ ∀ expression finding,
        (expression, finding) ∈ reports function ↔ Reported function expression finding := by
  refine ⟨_, reports, rfl, ?_, ?_, ?_⟩
  · exact (Rule.pairwise_report _ _ _ _).mpr (RepeatedStorage.pairwise_findings contract)
  · have sorted := (Order.sort_perm (fun a b : Finding => a.line ≤ b.line)
      (contract.functions.flatMap functionFindings)).map
        (Finding.toViolation Check.repeatedStorage.id severity (linesOf contract.source))
    refine sorted.trans (List.Perm.of_eq ?_)
    rw [List.map_flatMap]
    congr 1
    funext function
    rw [← map_snd_reports, List.map_map]
    rfl
  · exact fun function => ⟨nodup_fst_reports function, fun _ _ => mem_reports_iff⟩

-- The argument of a lookup is a lookup too, and a call that is never closed is none.
example :
    let code := "fn f() \x7b g(self.m.get(self.n.get(k)));\n self . n.get( k ); self.m.get(k; \x7d"
    (functionFindings ⟨"f", [], none, .priv, false, 1, code⟩).map
      (fun finding => (finding.line, finding.variableName)) = [(2, "n")] := by
  decide +kernel

end Contract
end SorobanLint
