import SorobanLint.Violation
import Mathlib

/-!
# Removing duplicate violations

Of a list of violations the first of each identity stays, in order (`Violation.firstOfEach_dedupe`).
Removing duplicates commutes with every treatment of single violations that tells them apart by
nothing but their identities (`Violation.dedupe_filterMap`).
-/

namespace SorobanLint
namespace Violation

/-- The violations of one rule. -/
def ofRule (id : String) (violations : List Violation) : List Violation :=
  violations.filter (·.ruleName = id)

/-- Some violations of a list are kept: those whose identity does not occur earlier, each in its
place. -/
structure FirstOfEach (all kept : List Violation) : Prop where
  distinct : (kept.map identity).Nodup
  sublist : kept.Sublist all
  first_kept : ∀ front violation back, all = front ++ violation :: back →
    (∀ other ∈ front, other.identity ≠ violation.identity) →
      ∃ before after, kept = before ++ violation :: after ∧ before.Sublist front ∧
        after.Sublist back

theorem nodup_dedupe (violations : List Violation) :
    ((dedupe violations).map identity).Nodup := by
  induction violations with
  | nil => exact List.nodup_nil
  | cons violation rest ih =>
      rw [dedupe, List.map_cons, List.nodup_cons]
      refine ⟨?_, (List.filter_sublist.map identity).nodup ih⟩
      intro mem
      obtain ⟨other, other_mem, same⟩ := List.mem_map.mp mem
      simpa [same] using (List.mem_filter.mp other_mem).2

/-- Behind other violations only those stay whose identity is new. -/
theorem dedupe_append (front back : List Violation) :
    dedupe (front ++ back) =
      dedupe front ++ (dedupe back).filter fun violation =>
        violation.identity ∉ front.map identity := by
  induction front with
  | nil => simp [dedupe]
  | cons first front ih =>
      rw [List.cons_append, dedupe, ih, List.filter_append, List.filter_filter, dedupe,
        List.cons_append]
      congr 2
      refine List.filter_congr ?_
      intro violation _
      simp

theorem firstOfEach_dedupe (violations : List Violation) :
    FirstOfEach violations (dedupe violations) where
  distinct := nodup_dedupe violations
  sublist := dedupe_sublist violations
  first_kept := by
    rintro front violation back rfl fresh
    have new : violation.identity ∉ front.map identity := by
      intro mem
      obtain ⟨other, other_mem, same⟩ := List.mem_map.mp mem
      exact fresh other other_mem same
    have later : ((dedupe back).filter fun other =>
        other.identity ≠ violation.identity).Sublist back :=
      List.filter_sublist.trans (dedupe_sublist back)
    rw [dedupe_append, dedupe, List.filter_cons_of_pos (by simpa using new)]
    exact ⟨_, _, rfl, dedupe_sublist front, List.filter_sublist.trans later⟩

/-- Duplicates may be removed before or after each violation is dropped or changed, if violations of
one identity are dropped together and different identities stay different. -/
theorem dedupe_filterMap {treat : Violation → Option Violation}
    (together : ∀ a b, a.identity = b.identity → (treat a).isSome = (treat b).isSome)
    (apart : ∀ a b c d, treat a = some c → treat b = some d →
      (c.identity = d.identity ↔ a.identity = b.identity)) (violations : List Violation) :
    dedupe (violations.filterMap treat) = (dedupe violations).filterMap treat := by
  induction violations with
  | nil => rfl
  | cons violation rest ih =>
      cases treated : treat violation with
      | none =>
          rw [List.filterMap_cons_none treated, ih, dedupe, List.filterMap_cons_none treated,
            List.filterMap_filter]
          refine List.filterMap_congr ?_
          intro other _
          split
          · rfl
          next same =>
            have dropped := together other violation (by simpa using same)
            rw [treated] at dropped
            simpa using dropped
      | some changed =>
          rw [List.filterMap_cons_some treated, dedupe, ih, dedupe,
            List.filterMap_cons_some treated, List.filter_filterMap, List.filterMap_filter]
          congr 1
          refine List.filterMap_congr ?_
          intro other _
          cases other_treated : treat other with
          | none => simp
          | some result =>
              have same_iff := apart other violation result changed other_treated treated
              simp [Option.filter, same_iff]

theorem dedupe_map {change : Violation → Violation}
    (apart : ∀ a b, (change a).identity = (change b).identity ↔ a.identity = b.identity)
    (violations : List Violation) :
    dedupe (violations.map change) = (dedupe violations).map change := by
  rw [← List.filterMap_eq_map, dedupe_filterMap (fun _ _ _ => rfl)]
  rintro a b _ _ ⟨⟩ ⟨⟩
  exact apart a b

theorem ofRule_dedupe (id : String) (violations : List Violation) :
    ofRule id (dedupe violations) = dedupe (ofRule id violations) := by
  have same_rule {a b : Violation} (same : a.identity = b.identity) : a.ruleName = b.ruleName :=
    congrArg Prod.fst same
  rw [ofRule, ofRule, ← List.filterMap_eq_filter, dedupe_filterMap]
  · intro a b same
    simp only [Option.guard, same_rule same]
    split <;> rfl
  · intro a b c d a_kept b_kept
    rw [Option.guard_eq_some_iff] at a_kept b_kept
    rw [a_kept.1, b_kept.1]

end Violation
end SorobanLint
