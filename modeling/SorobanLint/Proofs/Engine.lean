import SorobanLint.Engine
import SorobanLint.Proofs.Dedupe
import SorobanLint.Rule.Supplied

/-!
# What an engine returns

An engine returns the first of each identity among what its rules add, one rule after the other
(`Engine.check_eq_dedupe`).  A rule that is switched off or fails adds nothing, so the engine does
as well without it.  Rules that name nothing but themselves do not see each other: the violations of
one rule are those that it has alone, wherever it stands (`Engine.check_isolated`).
-/

namespace SorobanLint

open Violation

/-- What a rule adds to the violations in a contract: what it finds, but nothing if it is switched
off or fails. -/
def Rule.output (rule : Rule) (contract : Contract) : List Violation :=
  match rule.enabled, rule.apply contract with
  | true, some found => found
  | true, none => []
  | false, _ => []

/-- Whether all that a rule adds bears its own id. -/
def Rule.Owns (rule : Rule) (contract : Contract) : Prop :=
  ∀ violation ∈ rule.output contract, violation.ruleName = rule.id

namespace Rule

variable {rule : Rule} {contract : Contract}

theorem output_eq_nil (idle : rule.enabled = false ∨ rule.apply contract = none) :
    rule.output contract = [] := by
  rcases idle with off | failed
  · simp [output, off]
  · rw [output, failed]
    cases rule.enabled <;> rfl

theorem Owns.ofRule_eq (owns : rule.Owns contract) (id : String) :
    ofRule id (rule.output contract) = if rule.id = id then rule.output contract else [] := by
  split
  next same =>
    refine List.filter_eq_self.mpr ?_
    intro violation mem
    simpa [same] using owns violation mem
  next other =>
    refine List.filter_eq_nil_iff.mpr ?_
    intro violation mem
    simpa [owns violation mem] using other

end Rule

namespace Engine

variable {engine : Engine} {contract : Contract}

/-! ## Rules by id -/

/-- The rule with the given id. -/
def rule? (engine : Engine) (id : String) : Option Rule :=
  engine.rules.find? (·.id = id)

/-- The engine without the rule with the given id. -/
def without (engine : Engine) (id : String) : Engine where
  rules := engine.rules.filter (·.id ≠ id)
  distinct := (List.filter_sublist.map _).nodup engine.distinct

/-- The engine with the given rule and no other. -/
def alone (rule : Rule) : Engine := ⟨[rule], List.nodup_singleton rule.id⟩

theorem rule?_eq_some_iff {id : String} {rule : Rule} :
    engine.rule? id = some rule ↔ rule ∈ engine.rules ∧ rule.id = id := by
  constructor
  · intro found
    exact ⟨List.mem_of_find?_eq_some found, by simpa using List.find?_some found⟩
  · rintro ⟨mem, rfl⟩
    obtain ⟨other, found⟩ : ∃ other, engine.rule? rule.id = some other :=
      Option.isSome_iff_exists.mp (List.find?_isSome.mpr ⟨rule, mem, by simp⟩)
    have same : other.id = rule.id := by simpa using List.find?_some found
    rw [found, List.inj_on_of_nodup_map engine.distinct (List.mem_of_find?_eq_some found) mem same]

/-- Rules with distinct ids make an engine. -/
theorem ofRules_eq_ok {rules : List Rule} (distinct : (rules.map (·.id)).Nodup) :
    ofRules rules = .ok ⟨rules, distinct⟩ := by
  have fresh {seen ids : List String} (nodup : ids.Nodup) (unseen : ∀ id ∈ ids, id ∉ seen) :
      firstRepeated? seen ids = none := by
    induction ids generalizing seen with
    | nil => rfl
    | cons id rest ih =>
        rw [List.nodup_cons] at nodup
        rw [List.forall_mem_cons] at unseen
        rw [firstRepeated?, if_neg (by simpa using unseen.1)]
        refine ih nodup.2 ?_
        intro other mem
        rw [List.mem_cons, not_or]
        exact ⟨ne_of_mem_of_not_mem mem nodup.1, unseen.2 other mem⟩
  unfold ofRules
  split
  next id repeated => rw [fresh distinct (by simp)] at repeated; contradiction
  next => rfl

theorem rule?_perm {other : Engine} (permuted : other.rules.Perm engine.rules) (id : String) :
    other.rule? id = engine.rule? id := by
  refine Option.ext fun rule => ?_
  rw [rule?_eq_some_iff, rule?_eq_some_iff, permuted.mem_iff]

/-! ## Outputs -/

/-- What the rules of an engine add, one behind the other. -/
def outputs (engine : Engine) (contract : Contract) : List Violation :=
  engine.rules.flatMap (·.output contract)

/-- Rules that add nothing may be left out. -/
theorem flatMap_output_filter {rules : List Rule} {p : Rule → Bool}
    (idle : ∀ rule ∈ rules, p rule = false → rule.output contract = []) :
    (rules.filter p).flatMap (·.output contract) = rules.flatMap (·.output contract) := by
  induction rules with
  | nil => rfl
  | cons rule rest ih =>
      rw [List.forall_mem_cons] at idle
      rw [List.flatMap_cons, ← ih idle.2]
      cases kept : p rule with
      | false => rw [List.filter_cons_of_neg (by simp [kept]), idle.1 kept, List.nil_append]
      | true => rw [List.filter_cons_of_pos kept, List.flatMap_cons]

theorem check_eq_dedupe (engine : Engine) (contract : Contract) :
    engine.check contract = dedupe (engine.outputs contract) := by
  have off : ∀ rule ∈ engine.rules, rule.enabled = false → rule.output contract = [] :=
    fun rule _ disabled => Rule.output_eq_nil (.inl disabled)
  rw [check, outputs, ← flatMap_output_filter off, enabledRules]
  congr 1
  refine List.flatMap_congr ?_
  intro rule mem
  rw [Rule.output, (List.mem_filter.mp mem).2]
  cases rule.apply contract <;> rfl

theorem outputs_without {rule : Rule} (mem : rule ∈ engine.rules)
    (idle : rule.output contract = []) :
    (engine.without rule.id).outputs contract = engine.outputs contract := by
  refine flatMap_output_filter ?_
  intro other other_mem dropped
  have same : other.id = rule.id := by simpa using dropped
  rwa [List.inj_on_of_nodup_map engine.distinct other_mem mem same]

/-- Among what all rules add, that which bears the id of a rule is what this rule adds. -/
theorem ofRule_outputs (owns : ∀ rule ∈ engine.rules, rule.Owns contract) (id : String) :
    ofRule id (engine.outputs contract) =
      ((engine.rule? id).map (·.output contract)).getD [] := by
  have distinct := engine.distinct
  rw [outputs, rule?]
  generalize engine.rules = rules at owns distinct
  induction rules with
  | nil => rfl
  | cons rule rest ih =>
      rw [List.forall_mem_cons] at owns
      rw [List.map_cons, List.nodup_cons] at distinct
      have later := ih owns.2 distinct.2
      rw [ofRule] at later
      rw [List.flatMap_cons, ofRule, List.filter_append, later, ← ofRule, owns.1.ofRule_eq]
      by_cases same : rule.id = id
      · have absent : rest.find? (·.id = id) = none := by
          refine List.find?_eq_none.mpr ?_
          intro other mem
          have other_id : other.id ≠ rule.id := fun eq =>
            distinct.1 (eq ▸ List.mem_map_of_mem mem)
          simpa [← same] using other_id
        rw [if_pos same, List.find?_cons_of_pos (by simpa using same), absent]
        simp
      · rw [if_neg same, List.find?_cons_of_neg (by simpa using same), List.nil_append]

/-- The violations with one id are what the rule with this id has without duplicates. -/
theorem ofRule_check (owns : ∀ rule ∈ engine.rules, rule.Owns contract) (id : String) :
    ofRule id (engine.check contract) =
      dedupe (((engine.rule? id).map (·.output contract)).getD []) := by
  rw [check_eq_dedupe, ofRule_dedupe, ofRule_outputs owns]

/-- An engine returns the first of each identity among what its rules add, and it does as well
without a rule that is switched off or fails.  If no rule uses the id of another one, then the
violations of each rule are the same in whichever order the rules stand, and the same as those that
the rule has alone. -/
theorem check_isolated (engine : Engine) (contract : Contract) :
    FirstOfEach (engine.outputs contract) (engine.check contract) ∧
      (∀ rule ∈ engine.rules, rule.enabled = false ∨ rule.apply contract = none →
        (engine.without rule.id).check contract = engine.check contract) ∧
      ((∀ rule ∈ engine.rules, rule.Owns contract) →
        (∀ other : Engine, other.rules.Perm engine.rules → ∀ id,
          ofRule id (other.check contract) = ofRule id (engine.check contract)) ∧
        ∀ rule ∈ engine.rules,
          ofRule rule.id (engine.check contract) = (alone rule).check contract) := by
  refine ⟨?_, ?_, fun owns => ⟨?_, ?_⟩⟩
  · rw [check_eq_dedupe]
    exact firstOfEach_dedupe _
  · intro rule mem idle
    rw [check_eq_dedupe, outputs_without mem (Rule.output_eq_nil idle), check_eq_dedupe]
  · intro other permuted id
    have other_owns : ∀ rule ∈ other.rules, rule.Owns contract := fun rule mem =>
      owns rule (permuted.mem_iff.mp mem)
    rw [ofRule_check other_owns, ofRule_check owns, rule?_perm permuted]
  · intro rule mem
    have found : engine.rule? rule.id = some rule := rule?_eq_some_iff.mpr ⟨mem, rfl⟩
    rw [ofRule_check owns, found, check_eq_dedupe, outputs, alone]
    simp

/-- A rule that fails, a rule that repeats itself, a rule that is switched off, and one more. -/
theorem check_isolated_repetition :
    let violation (rule description name : String) : Violation :=
      ⟨rule, description, .info, 1, 1, name, ""⟩
    let broken := Rule.failing "broken" .info true
    let echo := Rule.emitting "echo" .info true
      [violation "echo" "first" "x", violation "echo" "second" "x", violation "echo" "third" "y"]
    let off := Rule.emitting "off" .info false [violation "off" "fourth" "x"]
    let other := Rule.emitting "other" .info true [violation "other" "fifth" "x"]
    let engine : Engine := ⟨[broken, echo, off, other], by decide⟩
    let turned : Engine := ⟨[other, off, echo, broken], by decide⟩
    let contract : Contract := ⟨"A", [], [], "", "a.rs"⟩
    engine.check contract =
        [violation "echo" "first" "x", violation "echo" "third" "y", violation "other" "fifth" "x"] ∧
      FirstOfEach (engine.outputs contract) (engine.check contract) ∧
      (engine.without "broken").check contract = engine.check contract ∧
      (engine.without "off").check contract = engine.check contract ∧
      ofRule "echo" (turned.check contract) = ofRule "echo" (engine.check contract) ∧
      ofRule "echo" (engine.check contract) = (alone echo).check contract := by
  intro violation broken echo off other engine turned contract
  obtain ⟨first, idle, owned⟩ := engine.check_isolated contract
  have owns : ∀ rule ∈ engine.rules, rule.Owns contract := by
    have all : engine.rules.all fun rule =>
        (rule.output contract).all (·.ruleName = rule.id) := by decide
    intro rule mem violation violation_mem
    simpa using List.all_eq_true.mp (List.all_eq_true.mp all rule mem) violation violation_mem
  obtain ⟨permuted, apart⟩ := owned owns
  have turned_perm : turned.rules.Perm engine.rules := List.reverse_perm engine.rules
  have broken_mem : broken ∈ engine.rules := List.mem_cons_self
  have off_mem : off ∈ engine.rules :=
    List.mem_cons_of_mem _ (List.mem_cons_of_mem _ List.mem_cons_self)
  have echo_mem : echo ∈ engine.rules := List.mem_cons_of_mem _ List.mem_cons_self
  exact ⟨by decide, first, idle broken broken_mem (.inr rfl), idle off off_mem (.inl rfl),
    permuted turned turned_perm "echo", apart echo echo_mem⟩

end Engine
end SorobanLint
