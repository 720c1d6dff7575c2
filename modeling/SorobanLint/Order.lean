/-!
# Stable sorting

Insertion sort by a relation that says which of two elements may stand first.  Elements that may
stand in either order keep the order in which they come.  Lists are ordered by their first
difference, and a list comes before the longer ones that start with it.
-/

namespace SorobanLint
namespace Order

/-- Whether a list comes strictly before another one: it ends first, or it has the smaller element
at the first place where they differ. -/
def before {α : Type} [DecidableEq α] (lt : α → α → Bool) : List α → List α → Bool
  | _, [] => false
  | [], _ :: _ => true
  | a :: as, b :: bs => if a = b then before lt as bs else lt a b

/-- Insert an element in front of the first one that it may stand before. -/
def insert {α : Type} (le : α → α → Bool) (a : α) : List α → List α
  | [] => [a]
  | b :: rest => if le a b then a :: b :: rest else b :: insert le a rest

/-- Sort a list, keeping the order of elements that are tied. -/
def sort {α : Type} (le : α → α → Bool) (list : List α) : List α :=
  list.foldr (insert le) []

theorem insert_perm {α : Type} (le : α → α → Bool) (a : α) (list : List α) :
    (insert le a list).Perm (a :: list) := by
  induction list with
  | nil => exact List.Perm.refl _
  | cons b rest ih =>
    rw [insert]
    split
    · exact List.Perm.refl _
    · exact (ih.cons b).trans (List.Perm.swap a b rest)

theorem sort_perm {α : Type} (le : α → α → Bool) (list : List α) : (sort le list).Perm list := by
  induction list with
  | nil => exact List.Perm.refl _
  | cons a rest ih => exact (insert_perm le a _).trans (ih.cons a)

end Order
end SorobanLint
