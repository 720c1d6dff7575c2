import SorobanLint.Contract.Parse
import SorobanLint.Rule.Catalog

/-!
# The engine

An engine runs a fixed list of rules with distinct ids over contracts.  The violations of the
enabled rules come in the order of the rules, without duplicates; a rule that fails adds nothing.
-/

namespace SorobanLint

/-- Rules with pairwise distinct ids. -/
structure Engine where
  /-- The rules in the order in which they are run. -/
  rules : List Rule
  /-- No two rules have the same id. -/
  distinct : (rules.map (·.id)).Nodup

namespace Engine

/-- The first id that occurs earlier in the list, of which `seen` is already read. -/
def firstRepeated? : List String → List String → Option String
  | _, [] => none
  | seen, id :: rest => if seen.contains id then some id else firstRepeated? (id :: seen) rest

theorem firstRepeated?_eq_none {seen ids : List String}
    (none_found : firstRepeated? seen ids = none) :
    ids.Nodup ∧ ∀ id ∈ ids, id ∉ seen := by
  induction ids generalizing seen with
  | nil => simp
  | cons id rest ih =>
    rw [firstRepeated?] at none_found
    split at none_found
    · contradiction
    next fresh =>
      obtain ⟨nodup, outside⟩ := ih none_found
      have fresh : id ∉ seen := by simpa using fresh
      refine ⟨List.nodup_cons.mpr ⟨fun mem => outside id mem (List.mem_cons_self), nodup⟩, ?_⟩
      intro other mem
      rcases List.mem_cons.mp mem with rfl | mem
      · exact fresh
      · exact fun later => outside other mem (List.mem_cons_of_mem _ later)

/-- An engine with the given rules; an error in words names the first id that two of them share. -/
def ofRules (rules : List Rule) : Except String Engine :=
  match repeated : firstRepeated? [] (rules.map (·.id)) with
  | some id => .error ("Duplicate rule id: " ++ id)
  | none => .ok ⟨rules, (firstRepeated?_eq_none repeated).1⟩

/-- The rules that are run. -/
def enabledRules (engine : Engine) : List Rule :=
  engine.rules.filter (·.enabled)

/-- What the enabled rules find in a contract, without duplicates. -/
def check (engine : Engine) (contract : Contract) : List Violation :=
  Violation.dedupe (engine.enabledRules.flatMap fun rule => (rule.apply contract).getD [])

/-- Recover the contract from a source and check it. -/
def analyze (engine : Engine) (source path : String) : Except ParseError (List Violation) :=
  (Contract.parse source path).map engine.check

/-- The engine with the default catalog. -/
def default : Engine := ⟨Rule.defaults, by decide⟩

end Engine
end SorobanLint
