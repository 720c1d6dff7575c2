import SorobanLint.Proofs.Below

/-!
# One more file

A tree gains a file where nothing was before (`FileTree.Gains`).  What lies below a path is then
what lay there, and at most the new file (`FileTree.Gains.below_iff`): a path that leads to a
directory in one of the trees leads to the same directory in the other one, but for the new file.
-/

namespace SorobanLint
namespace FileTree

/-- The second tree is the first one with a file more, or with a barred entry more, which the given
names lead to. -/
inductive Gains (kind : Leaf) : List String → FileTree → FileTree → Prop where
  /-- The file is put into the directory. -/
  | here (name : String) (front back : List (String × FileTree)) :
      Gains kind [name] (directory (front ++ back))
        (directory (front ++ (name, leaf kind) :: back))
  /-- An entry of the directory gains the file. -/
  | within (name : String) (front back : List (String × FileTree)) {names : List String}
      {tree larger : FileTree} (gains : Gains kind names tree larger) :
      Gains kind (name :: names) (directory (front ++ (name, tree) :: back))
        (directory (front ++ (name, larger) :: back))

namespace Gains

variable {kind : Leaf} {names : List String} {tree larger : FileTree}

theorem names_ne_nil (gains : Gains kind names tree larger) : names ≠ [] := by
  cases gains with
  | here => exact List.cons_ne_nil _ _
  | within => exact List.cons_ne_nil _ _

/-- An entry of another name is the same in both directories.  The entry of the name that leads to
the new file gains that file, or it is the new file. -/
theorem lookup?_cases {entries more : List (String × FileTree)}
    (gains : Gains kind names (directory entries) (directory more))
    (distinct : (more.map (·.1)).Nodup) (name : String) :
    (names.head? ≠ some name ∧ lookup? name more = lookup? name entries) ∨
    (names = [name] ∧ lookup? name entries = none ∧ lookup? name more = some (leaf kind)) ∨
    ∃ inner child grown, names = name :: inner ∧ Gains kind inner child grown ∧
      lookup? name entries = some child ∧ lookup? name more = some grown := by
  cases gains with
  | here new front back =>
      rw [List.map_append, List.map_cons, List.nodup_middle, ← List.map_append] at distinct
      have absent := lookup?_eq_none_iff.mpr (List.nodup_cons.mp distinct).1
      by_cases same : new = name
      · subst same
        rw [lookup?_append] at absent
        refine .inr (.inl ⟨rfl, (lookup?_append _ _ _).trans absent, ?_⟩)
        have front_absent := (Option.or_eq_none_iff.mp absent).1
        rw [lookup?_append, front_absent, Option.none_or, lookup?, if_pos rfl]
      · refine .inl ⟨by simpa using same, ?_⟩
        rw [lookup?_append, lookup?_append, lookup?, if_neg same]
  | within new front back gains =>
      rw [List.map_append, List.map_cons, List.nodup_middle, ← List.map_append] at distinct
      have absent := lookup?_eq_none_iff.mpr (List.nodup_cons.mp distinct).1
      by_cases same : new = name
      · subst same
        rw [lookup?_append] at absent
        have front_absent := (Option.or_eq_none_iff.mp absent).1
        refine .inr (.inr ⟨_, _, _, rfl, gains, ?_, ?_⟩)
        · rw [lookup?_append, front_absent, Option.none_or, lookup?, if_pos rfl]
        · rw [lookup?_append, front_absent, Option.none_or, lookup?, if_pos rfl]
      · refine .inl ⟨by simpa using same, ?_⟩
        rw [lookup?_append, lookup?_append, lookup?, lookup?, if_neg same, if_neg same]

/-- Both trees are directories. -/
theorem directories (gains : Gains kind names tree larger) :
    ∃ entries more, tree = directory entries ∧ larger = directory more := by
  cases gains with
  | here => exact ⟨_, _, rfl, rfl⟩
  | within => exact ⟨_, _, rfl, rfl⟩

/-- The larger tree holds the files of the other one, and the new one. -/
theorem at?_eq_leaf_iff (gains : Gains kind names tree larger) (proper : larger.Proper)
    (other : List String) (content : Leaf) :
    larger.at? other = some (leaf content) ↔
      tree.at? other = some (leaf content) ∨ other = names ∧ content = kind := by
  induction other generalizing names tree larger with
  | nil =>
      have nonempty := gains.names_ne_nil
      obtain ⟨entries, more, rfl, rfl⟩ := gains.directories
      simp [at?, nonempty.symm]
  | cons name other ih =>
      obtain ⟨entries, more, rfl, rfl⟩ := gains.directories
      rw [at?, at?]
      obtain ⟨elsewhere, same⟩ | ⟨rfl, absent, new⟩ | ⟨inner, child, grown, rfl, gains, old, new⟩ :=
        gains.lookup?_cases proper.distinct name
      · rw [same]
        refine (or_iff_left ?_).symm
        rintro ⟨rfl, -⟩
        exact elsewhere rfl
      · rw [absent, new]
        cases other with
        | nil => simp [at?, eq_comm]
        | cons next other => simp [at?]
      · rw [old, new, Option.bind_some, Option.bind_some,
          ih gains (proper.entry (mem_of_lookup? new)), List.cons.injEq, and_assoc]
        simp

/-- The names of the new file lead nowhere in the smaller tree. -/
theorem at?_eq_none (gains : Gains kind names tree larger) (proper : larger.Proper) :
    tree.at? names = none := by
  induction names generalizing tree larger with
  | nil => exact absurd rfl gains.names_ne_nil
  | cons name names ih =>
      obtain ⟨entries, more, rfl, rfl⟩ := gains.directories
      rw [at?]
      obtain ⟨elsewhere, -⟩ | ⟨-, absent, -⟩ | ⟨inner, child, grown, same, gains, old, new⟩ :=
        gains.lookup?_cases proper.distinct name
      · exact absurd rfl elsewhere
      · rw [absent, Option.bind_none]
      · obtain ⟨-, rfl⟩ := List.cons.inj same
        rw [old]
        exact ih gains (proper.entry (mem_of_lookup? new))

end Gains

/-! ## Following a path in both trees -/

/-- The second tree is the first one, or the first one with a file more; and it is proper. -/
structure Grows (kind : Leaf) (tree larger : FileTree) : Prop where
  /-- The trees are the same, or one of them has the file. -/
  same_or_gains : tree = larger ∨ ∃ names, Gains kind names tree larger
  /-- The larger tree is proper. -/
  proper : larger.Proper

/-- What a name leads to in both trees: nothing, the new file only in the larger one, or entries of
which the second may have gained the file. -/
inductive EntryGrows (kind : Leaf) : Option FileTree → Option FileTree → Prop where
  /-- There is no such entry. -/
  | absent : EntryGrows kind none none
  /-- It is the new file. -/
  | new : EntryGrows kind none (some (leaf kind))
  /-- It is there in both trees. -/
  | present {child grown : FileTree} (grows : Grows kind child grown) :
      EntryGrows kind (some child) (some grown)

/-- Following names has come to the same place in both trees. -/
inductive Alongside (kind : Leaf) :
    Option (FileTree × List FileTree) → Option (FileTree × List FileTree) → Prop where
  /-- Above both trees. -/
  | above : Alongside kind none none
  /-- In a tree that may have gained the file, like those around it. -/
  | inside {here there : FileTree} {outer around : List FileTree} (grows : Grows kind here there)
      (outer_grow : List.Forall₂ (Grows kind) outer around) :
      Alongside kind (some (here, outer)) (some (there, around))

/-- Names lead to the same place in both trees; or they lead nowhere in the smaller one and, if
anywhere, to the new file in the larger one. -/
inductive SameEnd (kind : Leaf) :
    Except AccessError (Option (FileTree × List FileTree)) →
    Except AccessError (Option (FileTree × List FileTree)) → Prop where
  /-- They lead to the same place. -/
  | reached {place other : Option (FileTree × List FileTree)}
      (alongside : Alongside kind place other) : SameEnd kind (.ok place) (.ok other)
  /-- They lead nowhere. -/
  | stuck (error error' : AccessError) : SameEnd kind (.error error) (.error error')
  /-- They lead to the new file. -/
  | new (error : AccessError) (around : List FileTree) :
      SameEnd kind (.error error) (.ok (some (leaf kind, around)))

section Follow

variable {kind : Leaf} {tree larger : FileTree} {path inner : Path}

/-- Each entry of a directory may have gained the file, unless it is the new file. -/
theorem Grows.lookup? {entries : List (String × FileTree)}
    (grows : Grows kind (directory entries) larger) :
    ∃ more, larger = directory more ∧
      ∀ name, EntryGrows kind (lookup? name entries) (lookup? name more) := by
  have same_entry {more : List (String × FileTree)} (proper : (directory more).Proper)
      (name : String) :
      EntryGrows kind (FileTree.lookup? name more) (FileTree.lookup? name more) := by
    cases present : FileTree.lookup? name more with
    | none => exact .absent
    | some child => exact .present ⟨.inl rfl, proper.entry (mem_of_lookup? present)⟩
  obtain ⟨rfl | ⟨names, gains⟩, proper⟩ := grows
  · exact ⟨entries, rfl, same_entry proper⟩
  · obtain ⟨_, more, ⟨⟩, rfl⟩ := gains.directories
    refine ⟨more, rfl, fun name => ?_⟩
    obtain ⟨-, same⟩ | ⟨-, absent, new⟩ | ⟨inner, child, grown, -, gains, old, new⟩ :=
      gains.lookup?_cases proper.distinct name
    · rw [← same]
      exact same_entry proper name
    · rw [absent, new]
      exact .new
    · rw [old, new]
      exact .present ⟨.inr ⟨inner, gains⟩, proper.entry (mem_of_lookup? new)⟩

/-- Both trees can be looked at, or neither can. -/
theorem Grows.look_cases (grows : Grows kind tree larger) :
    (tree.look = .ok tree ∧ larger.look = .ok larger) ∨
      ∃ error, tree.look = .error error ∧ larger.look = .error error := by
  obtain ⟨rfl | ⟨names, gains⟩, -⟩ := grows
  · cases tree with
    | leaf content => cases content <;> simp [look]
    | directory entries => exact .inl ⟨rfl, rfl⟩
  · obtain ⟨entries, more, rfl, rfl⟩ := gains.directories
    exact .inl ⟨rfl, rfl⟩

/-- From the same place, names have the same end in both trees. -/
theorem follow?_alongside {place other : Option (FileTree × List FileTree)}
    (alongside : Alongside kind place other) (names : List String) :
    SameEnd kind (follow? place names) (follow? other names) := by
  induction names generalizing place other with
  | nil => exact .reached alongside
  | cons name names ih =>
      cases alongside with
      | above =>
          by_cases dots : name = ".."
          · subst dots
            exact ih .above
          · rw [follow?_none dots]
            exact .stuck _ _
      | @inside here there outer around grows outer_grow =>
          cases here with
          | leaf content =>
              obtain ⟨rfl | ⟨_, ⟨⟩⟩, -⟩ := grows
              exact .stuck _ _
          | directory entries =>
              obtain ⟨more, rfl, entry_grows⟩ := grows.lookup?
              by_cases dots : name = ".."
              · subst dots
                cases outer_grow with
                | nil => exact ih .above
                | cons parent_grows rest_grow => exact ih (.inside parent_grows rest_grow)
              · have name_grows := entry_grows name
                generalize old : lookup? name entries = before at name_grows
                generalize new : lookup? name more = after at name_grows
                cases name_grows with
                | absent =>
                    rw [follow?_absent dots old, follow?_absent dots new]
                    exact .stuck _ _
                | new =>
                    rw [follow?_absent dots old, follow?_present dots new]
                    cases names with
                    | nil => exact .new _ _
                    | cons next names => exact .stuck _ _
                | present child_grows =>
                    rw [follow?_present dots old, follow?_present dots new]
                    exact ih (.inside child_grows (.cons grows outer_grow))

/-- A path leads to the same place in both trees, or nowhere in the smaller one and at most to the
new file in the larger one. -/
theorem Grows.find?_cases (grows : Grows kind tree larger) (path : Path) :
    (∃ found more, tree.find? path = .ok (some found) ∧ larger.find? path = .ok (some more) ∧
      Grows kind found more) ∨
    (∀ found, tree.find? path ≠ .ok (some found)) ∧
      ∀ more, larger.find? path = .ok (some more) → more = leaf kind := by
  have starts : Alongside kind (tree.start path) (larger.start path) := by
    rw [start, start]
    split
    · exact .inside grows .nil
    · exact .above
  have ends := follow?_alongside starts path.names
  have nowhere (error error' : AccessError) :
      (∀ found, (.error error : Except AccessError (Option FileTree)) ≠ .ok (some found)) ∧
        ∀ more, (.error error' : Except AccessError (Option FileTree)) = .ok (some more) →
          more = leaf kind :=
    ⟨fun found same => (by cases same), fun more same => by cases same⟩
  rw [find?, find?]
  split
  · exact .inr (nowhere _ _)
  · split
    · exact .inr (nowhere _ _)
    · generalize follow? (tree.start path) path.names = first at ends ⊢
      generalize follow? (larger.start path) path.names = second at ends ⊢
      cases ends with
      | reached alongside =>
          cases alongside with
          | above => exact .inr ⟨fun found same => (by cases same), fun more same => by cases same⟩
          | inside grows outer_grow =>
              obtain ⟨shown, shown'⟩ | ⟨error, hidden, hidden'⟩ := grows.look_cases
              · dsimp only
                rw [shown, shown']
                exact .inl ⟨_, _, rfl, rfl, grows⟩
              · dsimp only
                rw [hidden, hidden']
                exact .inr (nowhere error error)
      | stuck error error' => exact .inr (nowhere error error')
      | new error around =>
          refine .inr ⟨(nowhere error error).1, fun more shown => ?_⟩
          dsimp only at shown
          cases looked : (leaf kind).look with
          | error error => rw [looked] at shown; cases shown
          | ok seen =>
              rw [looked] at shown
              obtain rfl := Option.some.inj (Except.ok.inj shown)
              exact (look_eq_ok_iff.mp looked).2.symm

/-- Below a path in the larger tree lie the files that lie there in the other one, and possibly the
new one. -/
theorem Gains.below_iff {names : List String} (gains : Gains kind names tree larger)
    (proper : larger.Proper) (path : Path) :
    ∃ new : Option Path, (∀ inner content, larger.Below path inner (leaf content) ↔
        tree.Below path inner (leaf content) ∨ new = some inner ∧ content = kind) ∧
      ∀ inner, new = some inner → ∀ entry, ¬tree.Below path inner entry := by
  have grows : Grows kind tree larger := ⟨.inr ⟨names, gains⟩, proper⟩
  obtain ⟨found, more, there, there', rfl | ⟨inner_names, gains⟩, more_proper⟩ |
    ⟨nowhere, only_new⟩ := grows.find?_cases path
  · refine ⟨none, fun inner content => ?_, fun inner same => by cases same⟩
    simp [Below, there, there']
  · refine ⟨some (path.below inner_names), fun inner content => ?_, ?_⟩
    · have held (names : List String) := gains.at?_eq_leaf_iff more_proper names content
      have nonempty := gains.names_ne_nil
      constructor
      · rintro ⟨other, names, other_there, names_nonempty, reached, rfl⟩
        obtain rfl := Option.some.inj (Except.ok.inj (there'.symm.trans other_there))
        obtain old | ⟨rfl, rfl⟩ := (held names).mp reached
        · exact .inl ⟨found, names, there, names_nonempty, old, rfl⟩
        · exact .inr ⟨rfl, rfl⟩
      · rintro (⟨other, names, other_there, names_nonempty, reached, rfl⟩ | ⟨⟨⟩, rfl⟩)
        · obtain rfl := Option.some.inj (Except.ok.inj (there.symm.trans other_there))
          exact ⟨more, names, there', names_nonempty, (held names).mpr (.inl reached), rfl⟩
        · exact ⟨more, inner_names, there', nonempty, (held _).mpr (.inr ⟨rfl, rfl⟩), rfl⟩
    · rintro inner ⟨⟩ entry ⟨other, names, other_there, -, reached, same⟩
      obtain rfl := Option.some.inj (Except.ok.inj (there.symm.trans other_there))
      obtain rfl := Path.below_inj same
      rw [gains.at?_eq_none more_proper] at reached
      cases reached
  · refine ⟨none, fun inner content => ?_, fun inner same => by cases same⟩
    constructor
    · rintro ⟨other, names, other_there, names_nonempty, reached, rfl⟩
      obtain rfl := only_new other other_there
      cases names with
      | nil => exact absurd rfl names_nonempty
      | cons name names => cases reached
    · rintro (⟨other, names, other_there, -⟩ | ⟨⟨⟩, -⟩)
      exact absurd other_there (nowhere other)

end Follow
end FileTree
end SorobanLint
