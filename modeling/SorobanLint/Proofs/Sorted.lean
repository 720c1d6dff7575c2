import Mathlib.Data.List.Lex
import Mathlib.Data.List.Sort
import Mathlib.Data.String.Basic
import SorobanLint.File.Tree

/-!
# Paths in order

Sorting by a total order puts a list in order (`Order.pairwise_sort`).  The order of paths is the
lexicographic order of their names (`FileTree.precedes_iff`), so different paths are sorted
strictly, and a sorted list of them is known by its members (`Path.eq_of_pairwise_before`).
-/

namespace SorobanLint

namespace Order

variable {α : Type}

/-- A list comes before another one in the lexicographic order of the relation that tells which
element is smaller. -/
theorem before_iff_lex [DecidableEq α] {lt : α → α → Bool} {r : α → α → Prop}
    (smaller_iff : ∀ a b, lt a b = true ↔ r a b) (irreflexive : ∀ a, ¬r a a) (as bs : List α) :
    before lt as bs = true ↔ List.Lex r as bs := by
  induction as generalizing bs with
  | nil =>
      cases bs with
      | nil => simp [before]
      | cons b bs => simp [before]
  | cons a as ih =>
      cases bs with
      | nil => simp [before]
      | cons b bs =>
          rw [before, List.cons_lex_cons_iff]
          by_cases same : a = b
          · subst same
            rw [if_pos rfl, ih]
            simp [irreflexive a]
          · rw [if_neg same, smaller_iff]
            simp [same]

section Sorting

variable {le : α → α → Bool} (total : ∀ a b, le a b = true ∨ le b a = true)
  (transitive : ∀ a b c, le a b = true → le b c = true → le a c = true)

include total transitive

theorem pairwise_insert (a : α) {list : List α} (sorted : list.Pairwise (le · · = true)) :
    (insert le a list).Pairwise (le · · = true) := by
  induction list with
  | nil => exact List.pairwise_singleton _ a
  | cons b rest ih =>
      obtain ⟨b_le, rest_sorted⟩ := List.pairwise_cons.mp sorted
      rw [insert]
      split
      next a_le =>
        refine List.pairwise_cons.mpr ⟨?_, sorted⟩
        intro c mem
        rcases List.mem_cons.mp mem with rfl | mem
        · exact a_le
        · exact transitive a b c a_le (b_le c mem)
      next not_le =>
        refine List.pairwise_cons.mpr ⟨?_, ih rest_sorted⟩
        intro c mem
        rcases List.mem_cons.mp ((insert_perm le a rest).mem_iff.mp mem) with rfl | mem
        · exact (total c b).resolve_left not_le
        · exact b_le c mem

theorem pairwise_sort (list : List α) : (sort le list).Pairwise (le · · = true) := by
  induction list with
  | nil => exact List.Pairwise.nil
  | cons a rest ih => exact pairwise_insert total transitive a ih

end Sorting

section Keys

variable {κ : Type} [LinearOrder κ] (key : α → κ) (list : List α)

/-- What is sorted by a key has its keys in order. -/
theorem pairwise_sort_by : (sort (fun a b => key a ≤ key b) list).Pairwise (key · ≤ key ·) := by
  have total (a b : α) : decide (key a ≤ key b) = true ∨ decide (key b ≤ key a) = true := by
    simpa using le_total (key a) (key b)
  have transitive (a b c : α) (first : decide (key a ≤ key b) = true)
      (second : decide (key b ≤ key c) = true) : decide (key a ≤ key c) = true := by
    rw [decide_eq_true_iff] at first second ⊢
    exact first.trans second
  exact (pairwise_sort total transitive list).imp of_decide_eq_true

/-- If no key comes twice, the keys are in strict order. -/
theorem pairwise_lt_sort_by (distinct : (list.map key).Nodup) :
    (sort (fun a b => key a ≤ key b) list).Pairwise (key · < key ·) := by
  have apart : (sort (fun a b => key a ≤ key b) list).Pairwise (key · ≠ key ·) := by
    rw [← List.pairwise_map, ← List.Nodup]
    exact ((sort_perm _ list).map key).nodup_iff.mpr distinct
  refine ((pairwise_sort_by key list).and apart).imp ?_
  rintro a b ⟨le, ne⟩
  exact lt_of_le_of_ne le ne

end Keys

end Order

namespace FileTree

theorem nameBefore_iff (a b : String) : nameBefore a b = true ↔ a < b := by
  have smaller_iff (c d : Char) : decide (c.toNat < d.toNat) = true ↔ c < d := by
    rw [decide_eq_true_iff, Char.lt_def, UInt32.lt_iff_toNat_lt]
    rfl
  rw [nameBefore, Order.before_iff_lex smaller_iff (fun c => lt_irrefl c), String.lt_iff]
  rfl

/-- A path may come first if its names do in the lexicographic order. -/
theorem precedes_iff (a b : Path) : precedes a b = true ↔ a.names ≤ b.names := by
  have before_iff :=
    Order.before_iff_lex nameBefore_iff (fun name => lt_irrefl name) b.names a.names
  rw [precedes, Bool.not_eq_true', Bool.eq_false_iff, ne_eq, before_iff]
  exact not_lt (a := b.names) (b := a.names)

end FileTree

namespace Path

/-- The names of a path come strictly before those of another one, in the lexicographic order of
names, each ordered by its code points. -/
def Before (a b : Path) : Prop := a.names < b.names

theorem pairwise_before_sort {paths : List Path} (distinct : (paths.map (·.names)).Nodup) :
    (Order.sort FileTree.precedes paths).Pairwise Before := by
  have total (a b : Path) : FileTree.precedes a b = true ∨ FileTree.precedes b a = true := by
    rw [FileTree.precedes_iff, FileTree.precedes_iff]
    exact le_total a.names b.names
  have transitive (a b c : Path) (first : FileTree.precedes a b = true)
      (second : FileTree.precedes b c = true) : FileTree.precedes a c = true := by
    rw [FileTree.precedes_iff] at first second ⊢
    exact first.trans second
  have sorted := Order.pairwise_sort total transitive paths
  have apart : (Order.sort FileTree.precedes paths).Pairwise (·.names ≠ ·.names) := by
    rw [← List.pairwise_map, ← List.Nodup]
    exact ((Order.sort_perm FileTree.precedes paths).map _).nodup_iff.mpr distinct
  refine (sorted.and apart).imp ?_
  rintro a b ⟨le, ne⟩
  exact lt_of_le_of_ne ((FileTree.precedes_iff a b).mp le) ne

/-- Two strictly sorted lists of paths with the same members are the same. -/
theorem eq_of_pairwise_before {first second : List Path} (first_sorted : first.Pairwise Before)
    (second_sorted : second.Pairwise Before) (same : ∀ path, path ∈ first ↔ path ∈ second) :
    first = second := by
  have : Std.Antisymm Before := ⟨fun a b ab ba => absurd ab (lt_asymm (a := b.names) ba)⟩
  have : Std.Irrefl Before := ⟨fun a => lt_irrefl a.names⟩
  exact List.Pairwise.eq_of_mem_iff first_sorted second_sorted same

/-- A strictly sorted list with one path more than another one is that list with the path put in at
one place. -/
theorem eq_insert_of_pairwise_before {paths more : List Path} (sorted : paths.Pairwise Before)
    (more_sorted : more.Pairwise Before) {new : Option Path}
    (mem_iff : ∀ path, path ∈ more ↔ path ∈ paths ∨ new = some path)
    (is_new : ∀ path ∈ paths, new ≠ some path) :
    ∃ front back, paths = front ++ back ∧ more = front ++ new.toList ++ back := by
  cases new with
  | none =>
      have same := eq_of_pairwise_before more_sorted sorted (fun path => by simp [mem_iff])
      exact ⟨paths, [], by simp, by simp [same]⟩
  | some path =>
      obtain ⟨front, back, rfl⟩ := List.append_of_mem ((mem_iff path).mpr (.inr rfl))
      refine ⟨front, back, eq_of_pairwise_before sorted ?_ fun other => ?_, by simp⟩
      · exact more_sorted.sublist ((List.sublist_cons_self path back).append_left front)
      · have distinct := more_sorted.imp fun {a b} (before : Before a b) =>
          ne_of_apply_ne names before.ne
        have apart := (List.nodup_cons.mp (List.nodup_middle.mp distinct)).1
        have members := mem_iff other
        rw [List.mem_append, List.mem_cons] at members
        rw [List.mem_append] at apart ⊢
        constructor
        · intro mem
          obtain in_front | rfl | in_back := members.mpr (.inl mem)
          · exact .inl in_front
          · exact absurd rfl (is_new other mem)
          · exact .inr in_back
        · intro mem
          obtain in_paths | same := members.mp (mem.imp_right .inr)
          · exact in_paths
          · exact absurd (Option.some.inj same ▸ mem) apart

end Path
end SorobanLint
