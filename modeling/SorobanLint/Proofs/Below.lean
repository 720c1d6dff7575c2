import SorobanLint.Proofs.Sorted

/-!
# What lies below a directory

A tree is looked into name by name (`FileTree.at?`).  Where every directory holds distinct names,
the listing of a directory has each file below it once and nothing else, in the order of the paths
(`FileTree.files_cases`), and each listed path leads to the file it was listed for
(`FileTree.Below.read_eq`), or it is refused (`FileTree.Below.leaf_cases`).
-/

namespace SorobanLint

namespace Path

/-- The path of what the given names lead to from a path. -/
def below (path : Path) (names : List String) : Path := { path with names := path.names ++ names }

@[simp]
theorem child_below (path : Path) (name : String) (names : List String) :
    (path.child name).below names = path.below (name :: names) := by
  rw [below, below, child, List.append_assoc, List.singleton_append]

theorem below_inj {path : Path} {first second : List String}
    (same : path.below first = path.below second) : first = second :=
  List.append_cancel_left (congrArg names same)

end Path

namespace FileTree

/-! ## Trees with proper names -/

/-- What the given names lead to from a tree, each of them the name of an entry. -/
def at? : FileTree → List String → Option FileTree
  | tree, [] => some tree
  | leaf _, _ :: _ => none
  | directory entries, name :: names => (lookup? name entries).bind fun tree => tree.at? names

/-- A name that an entry of a directory can have. -/
structure ProperName (name : String) : Prop where
  /-- There is such a name. -/
  not_empty : name ≠ ""
  /-- It does not stand for the directory itself. -/
  not_dot : name ≠ "."
  /-- It does not stand for the directory around it. -/
  not_dots : name ≠ ".."
  /-- It is one name. -/
  no_slash : '/' ∉ name.toList
  /-- It does not hold the null character. -/
  no_null : '\u0000' ∉ name.toList

instance (name : String) : Decidable (ProperName name) :=
  decidable_of_iff
    (name ≠ "" ∧ name ≠ "." ∧ name ≠ ".." ∧ '/' ∉ name.toList ∧ '\u0000' ∉ name.toList)
    ⟨fun ⟨a, b, c, d, e⟩ => ⟨a, b, c, d, e⟩, fun ⟨a, b, c, d, e⟩ => ⟨a, b, c, d, e⟩⟩

/-- Every directory in a tree holds its entries under distinct names, and all names are proper. -/
def Proper (tree : FileTree) : Prop :=
  ∀ names entries, tree.at? names = some (directory entries) →
    (entries.map (·.1)).Nodup ∧ ∀ entry ∈ entries, ProperName entry.1

section Lookup

variable {name : String} {tree : FileTree} {entries : List (String × FileTree)}

theorem lookup?_append (name : String) (front back : List (String × FileTree)) :
    lookup? name (front ++ back) = (lookup? name front).or (lookup? name back) := by
  induction front with
  | nil => rfl
  | cons entry front ih =>
      obtain ⟨other, tree⟩ := entry
      rw [List.cons_append, lookup?, lookup?]
      split
      · rfl
      · exact ih

theorem lookup?_eq_none_iff : lookup? name entries = none ↔ name ∉ entries.map (·.1) := by
  induction entries with
  | nil => simp [lookup?]
  | cons entry rest ih =>
      obtain ⟨other, tree⟩ := entry
      rw [lookup?]
      split
      next same => simp [same]
      next different => simp [ih, Ne.symm different]

theorem mem_of_lookup? (found : lookup? name entries = some tree) : (name, tree) ∈ entries := by
  induction entries with
  | nil => simp [lookup?] at found
  | cons entry rest ih =>
      obtain ⟨other, first⟩ := entry
      rw [lookup?] at found
      split at found
      next same =>
        obtain rfl := Option.some.inj found
        exact same ▸ List.mem_cons_self
      next different => exact List.mem_cons_of_mem _ (ih found)

theorem lookup?_eq_some_iff (distinct : (entries.map (·.1)).Nodup) :
    lookup? name entries = some tree ↔ (name, tree) ∈ entries := by
  refine ⟨mem_of_lookup?, fun mem => ?_⟩
  cases found : lookup? name entries with
  | none => exact absurd (List.mem_map_of_mem mem) (lookup?_eq_none_iff.mp found)
  | some other =>
      have same := List.inj_on_of_nodup_map distinct (mem_of_lookup? found) mem rfl
      rw [(Prod.mk.inj same).2]

end Lookup

namespace Proper

variable {tree : FileTree} {entries : List (String × FileTree)}

theorem distinct (proper : (directory entries).Proper) : (entries.map (·.1)).Nodup :=
  (proper [] entries rfl).1

theorem name (proper : (directory entries).Proper) {entry : String × FileTree}
    (mem : entry ∈ entries) : ProperName entry.1 :=
  (proper [] entries rfl).2 entry mem

/-- What is found in a proper tree is proper. -/
theorem entry (proper : (directory entries).Proper) {name : String}
    (mem : (name, tree) ∈ entries) : tree.Proper := by
  intro names inner found
  have entry_found := (lookup?_eq_some_iff proper.distinct).mpr mem
  refine proper (name :: names) inner ?_
  rw [at?, entry_found]
  exact found

theorem of_leaf (kind : Leaf) : (leaf kind).Proper := by
  intro names entries found
  cases names with
  | nil => cases found
  | cons name names => cases found

theorem of_directory (distinct : (entries.map (·.1)).Nodup)
    (inside : ∀ entry ∈ entries, ProperName entry.1 ∧ entry.2.Proper) :
    (directory entries).Proper := by
  intro names inner found
  cases names with
  | nil =>
      obtain rfl : entries = inner := by simpa [at?] using found
      exact ⟨distinct, fun entry mem => (inside entry mem).1⟩
  | cons name names =>
      obtain ⟨tree, tree_found, found⟩ := Option.bind_eq_some_iff.mp found
      exact (inside _ (mem_of_lookup? tree_found)).2 names inner found

/-- The names that lead somewhere in a proper tree are proper. -/
theorem names (proper : tree.Proper) {names : List String} {inner : FileTree}
    (found : tree.at? names = some inner) : ∀ name ∈ names, ProperName name := by
  induction names generalizing tree with
  | nil => simp
  | cons name names ih =>
      cases tree with
      | leaf kind => cases found
      | directory entries =>
          obtain ⟨child, child_found, found⟩ := Option.bind_eq_some_iff.mp found
          have mem := mem_of_lookup? child_found
          exact List.forall_mem_cons.mpr ⟨proper.name mem, ih (proper.entry mem) found⟩

end Proper

/-! ## The listing of a directory -/

section Listing

variable {tree : FileTree} {path : Path} {entries : List (String × FileTree)}

/-- What is listed below a path is what names lead to in the tree there, with the path of these
names. -/
theorem mem_entriesIn_and_mem_entriesAmong_iff :
    (∀ path tree, Proper tree → ∀ inner entry, ((inner, entry) ∈ entriesIn path tree ↔
      ∃ names, names ≠ [] ∧ tree.at? names = some entry ∧ inner = path.below names)) ∧
    ∀ path (entries : List (String × FileTree)), (∀ child ∈ entries, child.2.Proper) →
      ∀ inner entry, ((inner, entry) ∈ entriesAmong path entries ↔
        ∃ child ∈ entries, ∃ names,
          child.2.at? names = some entry ∧ inner = path.below (child.1 :: names)) := by
  apply entriesIn.mutual_induct
  case case1 =>
    intro path kind _ inner entry
    rw [entriesIn]
    refine iff_of_false List.not_mem_nil ?_
    rintro ⟨names, nonempty, found, -⟩
    cases names with
    | nil => exact nonempty rfl
    | cons name names => cases found
  case case2 =>
    intro path entries among proper inner entry
    rw [entriesIn, among (fun child mem => proper.entry mem)]
    constructor
    · rintro ⟨⟨name, child⟩, mem, names, found, rfl⟩
      refine ⟨name :: names, List.cons_ne_nil _ _, ?_, rfl⟩
      rw [at?, (lookup?_eq_some_iff proper.distinct).mpr mem]
      exact found
    · rintro ⟨names, nonempty, found, rfl⟩
      cases names with
      | nil => exact absurd rfl nonempty
      | cons name names =>
          obtain ⟨child, child_found, found⟩ := Option.bind_eq_some_iff.mp found
          exact ⟨(name, child), mem_of_lookup? child_found, names, found, rfl⟩
  case case3 =>
    intro path _ inner entry
    simp [entriesAmong]
  case case4 =>
    intro path name child rest below_child among_rest proper inner entry
    obtain ⟨child_proper, rest_proper⟩ := List.forall_mem_cons.mp proper
    rw [entriesAmong, List.mem_cons, List.mem_append, below_child child_proper,
      among_rest rest_proper]
    simp only [Path.child_below, List.mem_cons, or_and_right, exists_or, exists_eq_left]
    constructor
    · rintro (same | ⟨names, -, found, rfl⟩ | later)
      · obtain ⟨rfl, rfl⟩ := Prod.mk.inj same
        exact .inl ⟨[], rfl, rfl⟩
      · exact .inl ⟨names, found, rfl⟩
      · exact .inr later
    · rintro (⟨names, found, rfl⟩ | later)
      · cases names with
        | nil =>
            obtain rfl := Option.some.inj found
            exact .inl rfl
        | cons next names => exact .inr (.inl ⟨next :: names, List.cons_ne_nil _ _, found, rfl⟩)
      · exact .inr (.inr later)

theorem mem_entriesIn_iff (proper : tree.Proper) {inner : Path} {entry : FileTree} :
    (inner, entry) ∈ entriesIn path tree ↔
      ∃ names, names ≠ [] ∧ tree.at? names = some entry ∧ inner = path.below names :=
  mem_entriesIn_and_mem_entriesAmong_iff.1 path tree proper inner entry

theorem mem_entriesAmong_iff (proper : ∀ child ∈ entries, child.2.Proper) {inner : Path}
    {entry : FileTree} :
    (inner, entry) ∈ entriesAmong path entries ↔ ∃ child ∈ entries, ∃ names,
      child.2.at? names = some entry ∧ inner = path.below (child.1 :: names) :=
  mem_entriesIn_and_mem_entriesAmong_iff.2 path entries proper inner entry

/-- Nothing is listed twice below a path. -/
theorem nodup_entriesIn_and_nodup_entriesAmong :
    (∀ path tree, Proper tree → ((entriesIn path tree).map (·.1.names)).Nodup) ∧
    ∀ path (entries : List (String × FileTree)), (∀ child ∈ entries, child.2.Proper) →
      (entries.map (·.1)).Nodup → ((entriesAmong path entries).map (·.1.names)).Nodup := by
  apply entriesIn.mutual_induct
  case case1 =>
    intro path kind _
    exact List.nodup_nil
  case case2 =>
    intro path entries among proper
    exact among (fun child mem => proper.entry mem) proper.distinct
  case case3 =>
    intro path _ _
    exact List.nodup_nil
  case case4 =>
    intro path name child rest below_child among_rest proper distinct
    obtain ⟨child_proper, rest_proper⟩ := List.forall_mem_cons.mp proper
    obtain ⟨name_apart, rest_distinct⟩ := List.nodup_cons.mp distinct
    -- What lies in or is another entry has that entry's name where this one has its own.
    have apart {names : List String} {inner : Path × FileTree}
        (mem : inner ∈ entriesAmong path rest) : inner.1.names ≠ path.names ++ name :: names := by
      intro same
      obtain ⟨other, other_mem, more, -, inner_eq⟩ := (mem_entriesAmong_iff rest_proper).mp mem
      rw [inner_eq] at same
      obtain ⟨same_name, -⟩ := List.cons.inj (List.append_cancel_left same)
      exact name_apart (List.mem_map.mpr ⟨other, other_mem, same_name⟩)
    rw [entriesAmong, List.map_cons, List.map_append, List.nodup_cons, List.mem_append,
      List.nodup_append]
    refine ⟨?_, below_child child_proper, among_rest rest_proper rest_distinct, ?_⟩
    · rintro (within | among)
      · obtain ⟨inner, mem, same⟩ := List.mem_map.mp within
        obtain ⟨names, nonempty, -, inner_eq⟩ := (mem_entriesIn_iff child_proper).mp mem
        rw [inner_eq] at same
        exact nonempty (List.append_right_eq_self.mp same)
      · obtain ⟨inner, mem, same⟩ := List.mem_map.mp among
        exact apart mem same
    · rintro within mem_within among mem_among rfl
      obtain ⟨inner, mem, rfl⟩ := List.mem_map.mp mem_within
      obtain ⟨other, other_mem, same⟩ := List.mem_map.mp mem_among
      obtain ⟨names, -, -, inner_eq⟩ := (mem_entriesIn_iff child_proper).mp mem
      have lies_within : inner.1.names = path.names ++ name :: names := by
        rw [inner_eq, Path.child_below]
        rfl
      exact apart other_mem (same.trans lies_within)

theorem nodup_entriesIn (proper : tree.Proper) :
    ((entriesIn path tree).map (·.1.names)).Nodup :=
  nodup_entriesIn_and_nodup_entriesAmong.1 path tree proper

end Listing

/-! ## Following names -/

section Follow

variable {tree found entry : FileTree} {path : Path} {names : List String}

theorem follow?_none {name : String} (different : name ≠ "..") (names : List String) :
    follow? none (name :: names) = .error (missing name) := by
  rw [follow?, if_neg different]

theorem follow?_absent {name : String} {entries : List (String × FileTree)}
    (different : name ≠ "..") (absent : lookup? name entries = none) (outer : List FileTree)
    (names : List String) :
    follow? (some (directory entries, outer)) (name :: names) = .error (missing name) := by
  cases outer with
  | nil => rw [follow?, if_neg different, absent]
  | cons parent rest => rw [follow?, if_neg different, absent]

theorem follow?_present {name : String} {entries : List (String × FileTree)}
    (different : name ≠ "..") (present : lookup? name entries = some tree) (outer : List FileTree)
    (names : List String) :
    follow? (some (directory entries, outer)) (name :: names) =
      follow? (some (tree, directory entries :: outer)) names := by
  cases outer with
  | nil => rw [follow?, if_neg different, present]
  | cons parent rest => rw [follow?, if_neg different, present]

theorem follow?_append (place : Option (FileTree × List FileTree)) (front back : List String) :
    follow? place (front ++ back) =
      (follow? place front).bind fun place => follow? place back := by
  induction place, front using follow?.induct with
  | case1 here => rfl
  | case2 names ih => exact ih
  | case3 name names different =>
      rw [List.cons_append, follow?_none different, follow?_none different]
      rfl
  | case4 kind outer name names => rfl
  | case5 entries names ih => exact ih
  | case6 entries names parent rest ih => exact ih
  | case7 entries outer name names different absent =>
      rw [List.cons_append, follow?_absent different absent, follow?_absent different absent]
      rfl
  | case8 entries outer name names different tree present ih =>
      rw [List.cons_append, follow?_present different present, follow?_present different present]
      exact ih

/-- What names lead to without leaving the tree is reached by following them. -/
theorem follow?_of_at? (no_dots : ∀ name ∈ names, name ≠ "..")
    (reached : tree.at? names = some entry) (outer : List FileTree) :
    ∃ around, follow? (some (tree, outer)) names = .ok (some (entry, around)) := by
  induction names generalizing tree outer with
  | nil =>
      obtain rfl := Option.some.inj reached
      exact ⟨outer, rfl⟩
  | cons name names ih =>
      obtain ⟨different, no_dots⟩ := List.forall_mem_cons.mp no_dots
      cases tree with
      | leaf kind => cases reached
      | directory entries =>
          obtain ⟨child, present, reached⟩ := Option.bind_eq_some_iff.mp reached
          obtain ⟨around, followed⟩ := ih no_dots reached (directory entries :: outer)
          exact ⟨around, (follow?_present different present outer names).trans followed⟩

/-- Following names stays among proper trees. -/
theorem Proper.of_follow? {place : Option (FileTree × List FileTree)} {around : List FileTree}
    (proper : ∀ here outer, place = some (here, outer) → ∀ tree ∈ here :: outer, tree.Proper)
    (followed : follow? place names = .ok (some (found, around))) : found.Proper := by
  induction place, names using follow?.induct with
  | case1 here =>
      obtain rfl := Except.ok.inj followed
      exact proper found around rfl found List.mem_cons_self
  | case2 names ih => exact ih proper followed
  | case3 name names different =>
      rw [follow?_none different] at followed
      cases followed
  | case4 kind outer name names => cases followed
  | case5 entries names ih => exact ih (fun here outer none_eq => nomatch none_eq) followed
  | case6 entries names parent rest ih =>
      refine ih ?_ followed
      rintro here outer ⟨⟩ tree mem
      exact proper _ _ rfl tree (List.mem_cons_of_mem _ mem)
  | case7 entries outer name names different absent =>
      rw [follow?_absent different absent] at followed
      cases followed
  | case8 entries outer name names different child present ih =>
      rw [follow?_present different present] at followed
      refine ih ?_ followed
      rintro here outer ⟨⟩
      have all_proper := proper _ _ rfl
      exact List.forall_mem_cons.mpr
        ⟨(all_proper _ List.mem_cons_self).entry (mem_of_lookup? present), all_proper⟩

/-- Looking at a tree shows the tree itself, unless it is barred. -/
theorem look_eq_ok_iff : entry.look = .ok found ↔ entry ≠ leaf .barred ∧ entry = found := by
  cases entry with
  | leaf kind => cases kind <;> simp [look]
  | directory entries => simp [look]

theorem find?_eq_ok_some_iff : tree.find? path = .ok (some found) ↔
    path.holdsNull = false ∧ isOverlong path = false ∧ found ≠ leaf .barred ∧
      ∃ around, follow? (tree.start path) path.names = .ok (some (found, around)) := by
  rw [find?]
  split
  next null => simp [null]
  next no_null =>
    split
    next overlong => simp [overlong]
    next fits =>
      simp only [no_null, fits, true_and]
      split
      next error followed => simp [followed]
      next followed => simp [followed]
      next entry around followed =>
        simp only [followed, Except.ok.injEq, Option.some.injEq, Prod.mk.injEq]
        cases looked : entry.look with
        | error error =>
            refine iff_of_false (fun same => by cases same) ?_
            rintro ⟨not_barred, _, rfl, -⟩
            rw [look_eq_ok_iff.mpr ⟨not_barred, rfl⟩] at looked
            cases looked
        | ok seen =>
            obtain ⟨not_barred, rfl⟩ := look_eq_ok_iff.mp looked
            constructor
            · rintro ⟨⟩
              exact ⟨not_barred, around, rfl, rfl⟩
            · rintro ⟨-, _, rfl, -⟩
              rfl

theorem Proper.of_find? (proper : tree.Proper) (there : tree.find? path = .ok (some found)) :
    found.Proper := by
  obtain ⟨-, -, -, around, followed⟩ := find?_eq_ok_some_iff.mp there
  refine Proper.of_follow? ?_ followed
  intro here outer start_eq
  rw [start] at start_eq
  split at start_eq
  next => cases start_eq; simpa using proper
  next => cases start_eq

/-- Proper names hold no null character. -/
theorem holdsNull_below (no_null : path.holdsNull = false)
    (proper_names : ∀ name ∈ names, ProperName name) : (path.below names).holdsNull = false := by
  rw [Path.holdsNull, Path.below, List.any_append, ← Path.holdsNull, no_null, Bool.false_or,
    List.any_eq_false]
  intro name mem
  simpa using (proper_names name mem).no_null

/-- What lies below what is found at a path is what can be looked at at the path below it. -/
theorem find?_below (proper : tree.Proper) (there : tree.find? path = .ok (some found))
    (reached : found.at? names = some entry) (fits : isOverlong (path.below names) = false) :
    tree.find? (path.below names) = entry.look.map some := by
  have proper_names := (proper.of_find? there).names reached
  obtain ⟨no_null, -, -, outer, followed⟩ := find?_eq_ok_some_iff.mp there
  obtain ⟨around, reaches⟩ :=
    follow?_of_at? (fun name mem => (proper_names name mem).not_dots) reached outer
  have same_start : tree.start (path.below names) = tree.start path := rfl
  have followed_below :
      follow? (tree.start path) (path.below names).names = .ok (some (entry, around)) := by
    rw [Path.below, follow?_append, followed]
    exact reaches
  rw [find?, holdsNull_below no_null proper_names, fits, if_neg Bool.false_ne_true,
    if_neg Bool.false_ne_true, same_start, followed_below]

end Follow

/-! ## What lies below a path -/

/-- An entry lies below the directory at a path, under the path `inner`. -/
def Below (tree : FileTree) (path inner : Path) (entry : FileTree) : Prop :=
  ∃ found names, tree.find? path = .ok (some found) ∧ names ≠ [] ∧
    found.at? names = some entry ∧ inner = path.below names

/-- The directory at a path, and everything below it, can be asked about. -/
structure Accessible (tree : FileTree) (path : Path) : Prop where
  /-- There is an answer at the path itself, if only that nothing is there. -/
  isAbsence_eq : ∀ error, tree.find? path = .error error → error.isAbsence = true
  /-- No path below it is too long to be followed. -/
  isOverlong_eq : ∀ inner entry, tree.Below path inner entry → isOverlong inner = false
  /-- Nothing below it is barred. -/
  not_barred : ∀ inner, ¬tree.Below path inner (leaf .barred)

/-- Asking about a path is refused with an error. -/
structure Refused (tree : FileTree) (path : Path) (error : AccessError) : Prop where
  /-- The path leads to nothing. -/
  find?_eq : tree.find? path = .error error
  /-- That nothing is there, it does not say. -/
  isAbsence_eq : error.isAbsence = false

section Files

variable {tree found entry : FileTree} {path inner : Path} {error : AccessError} {kind : Leaf}

theorem ask_eq_error_iff {above : Bool} {answer : FileTree → Bool} :
    tree.ask path above answer = .error error ↔ tree.Refused path error := by
  constructor
  · intro asked
    rw [ask] at asked
    split at asked
    next => cases asked
    next => cases asked
    next cause failed =>
      split at asked
      next => cases asked
      next stays =>
        cases asked
        exact ⟨failed, by simpa using stays⟩
  · rintro ⟨failed, stays⟩
    simp [ask, failed, stays]

namespace Below

variable (below : tree.Below path inner entry) (proper : tree.Proper)

include below proper

theorem holdsNull_eq_false : inner.holdsNull = false := by
  obtain ⟨found, names, there, -, reached, rfl⟩ := below
  exact holdsNull_below (find?_eq_ok_some_iff.mp there).1 ((proper.of_find? there).names reached)

theorem find?_eq (fits : isOverlong inner = false) : tree.find? inner = entry.look.map some := by
  obtain ⟨found, names, there, -, reached, rfl⟩ := below
  exact find?_below proper there reached fits

/-- What lies below a path is read there. -/
theorem read_eq (fits : isOverlong inner = false) : tree.read inner = entry.content := by
  rw [read, below.find?_eq proper fits]
  cases entry with
  | leaf kind => cases kind <;> rfl
  | directory entries => rfl

theorem ask_eq (fits : isOverlong inner = false) (not_barred : entry ≠ leaf .barred)
    (above : Bool) (answer : FileTree → Bool) :
    tree.ask inner above answer = .ok (answer entry) := by
  rw [ask, below.find?_eq proper fits, look_eq_ok_iff.mpr ⟨not_barred, rfl⟩]
  rfl

/-- A path that is too long to be followed is refused. -/
theorem refused_of_isOverlong (overlong : isOverlong inner = true) :
    tree.Refused inner .nameTooLong where
  find?_eq := by
    rw [find?, below.holdsNull_eq_false proper, overlong, if_neg Bool.false_ne_true, if_pos rfl]
  isAbsence_eq := rfl

end Below

/-- The path of what is barred is refused. -/
theorem Below.refused_of_barred (below : tree.Below path inner (leaf .barred))
    (proper : tree.Proper) (fits : isOverlong inner = false) :
    tree.Refused inner .permissionDenied where
  find?_eq := below.find?_eq proper fits
  isAbsence_eq := rfl

/-- What is no directory is a file that can be asked about, or it is refused. -/
theorem Below.leaf_cases (below : tree.Below path inner (leaf kind)) (proper : tree.Proper) :
    (isOverlong inner = false ∧ kind ≠ .barred ∧ tree.ask inner false isFile = .ok true) ∨
      ∃ error, tree.Refused inner error := by
  cases fits : isOverlong inner with
  | true => exact .inr ⟨_, below.refused_of_isOverlong proper fits⟩
  | false =>
      cases kind with
      | octets octets => exact .inl ⟨rfl, nofun, below.ask_eq proper fits nofun _ _⟩
      | unreadable cause => exact .inl ⟨rfl, nofun, below.ask_eq proper fits nofun _ _⟩
      | barred => exact .inr ⟨_, below.refused_of_barred proper fits⟩

/-- Nothing is refused at a path that is accessible, nor below it. -/
theorem Accessible.not_refused (accessible : tree.Accessible path) (proper : tree.Proper)
    {place : Path} (located : place = path ∨ ∃ entry, tree.Below path place entry) :
    ¬tree.Refused place error := by
  rintro ⟨failed, stays⟩
  obtain rfl | ⟨entry, below⟩ := located
  · rw [accessible.isAbsence_eq error failed] at stays
    cases stays
  · have not_barred : entry ≠ leaf .barred := by
      rintro rfl
      exact accessible.not_barred place below
    rw [below.find?_eq proper (accessible.isOverlong_eq place entry below),
      look_eq_ok_iff.mpr ⟨not_barred, rfl⟩] at failed
    cases failed

/-- Below an accessible path, what is no directory is a file. -/
theorem Accessible.isFile_below_iff (accessible : tree.Accessible path) :
    (∃ entry, tree.Below path inner entry ∧ entry.isFile = true) ↔
      ∃ kind, tree.Below path inner (leaf kind) := by
  constructor
  · rintro ⟨entry, below, is_file⟩
    cases entry with
    | leaf kind => exact ⟨kind, below⟩
    | directory entries => cases is_file
  · rintro ⟨kind, below⟩
    refine ⟨_, below, ?_⟩
    cases kind with
    | octets octets => rfl
    | unreadable cause => rfl
    | barred => exact absurd below (accessible.not_barred inner)

/-- What the listing of a found directory holds lies below its path. -/
theorem mem_entriesIn_iff_below (proper : tree.Proper)
    (there : tree.find? path = .ok (some found)) :
    (inner, entry) ∈ entriesIn path found ↔ tree.Below path inner entry := by
  rw [mem_entriesIn_iff (proper.of_find? there)]
  constructor
  · rintro ⟨names, nonempty, reached, rfl⟩
    exact ⟨found, names, there, nonempty, reached, rfl⟩
  · rintro ⟨other, names, other_there, nonempty, reached, rfl⟩
    obtain rfl := Option.some.inj (Except.ok.inj (there.symm.trans other_there))
    exact ⟨names, nonempty, reached, rfl⟩

/-- Whether a path is accessible can be checked in the listing. -/
theorem Accessible.of_entriesIn (proper : tree.Proper) (there : tree.find? path = .ok (some found))
    (fit : ∀ listed ∈ entriesIn path found, isOverlong listed.1 = false ∧
      (listed.2.isFile || listed.2.isDirectory) = true) :
    tree.Accessible path where
  isAbsence_eq error failed := by rw [there] at failed; cases failed
  isOverlong_eq inner entry below :=
    (fit (inner, entry) ((mem_entriesIn_iff_below proper there).mpr below)).1
  not_barred inner below := by
    cases (fit (inner, _) ((mem_entriesIn_iff_below proper there).mpr below)).2

/-- The listed paths are those of the entries below a path that are no directories. -/
structure Lists (tree : FileTree) (path : Path) (files : List Path) : Prop where
  /-- The paths are in order, so each is listed once. -/
  sorted : files.Pairwise Path.Before
  /-- All of these entries are listed, and nothing else is. -/
  mem_iff : ∀ inner, inner ∈ files ↔ ∃ kind, tree.Below path inner (leaf kind)
  /-- If no listed path is refused, nothing below the path is. -/
  accessible : (∀ inner ∈ files, ∀ error, ¬tree.Refused inner error) → tree.Accessible path

namespace Lists

variable {files : List Path} (lists : tree.Lists path files) (proper : tree.Proper)
  (mem : inner ∈ files)

include lists proper mem

theorem holdsNull_eq_false : inner.holdsNull = false := by
  obtain ⟨kind, below⟩ := (lists.mem_iff inner).mp mem
  exact below.holdsNull_eq_false proper

/-- A listed path is that of a file, or it is refused. -/
theorem ask_cases : tree.ask inner false isFile = .ok true ∨ ∃ error, tree.Refused inner error := by
  obtain ⟨kind, below⟩ := (lists.mem_iff inner).mp mem
  exact (below.leaf_cases proper).imp_left fun answered => answered.2.2

end Lists

/-- Where there is nothing, there is nothing to list. -/
theorem Lists.nil (not_found : ∀ found, tree.find? path ≠ .ok (some found))
    (isAbsence_eq : ∀ error, tree.find? path = .error error → error.isAbsence = true) :
    tree.Lists path [] := by
  have no_below (inner : Path) (entry : FileTree) : ¬tree.Below path inner entry := by
    rintro ⟨found, names, there, -⟩
    exact not_found found there
  refine ⟨List.Pairwise.nil, fun inner => ?_, fun _ => ⟨isAbsence_eq, ?_, ?_⟩⟩
  · exact iff_of_false List.not_mem_nil (fun ⟨kind, below⟩ => no_below inner _ below)
  · exact fun inner entry below => absurd below (no_below inner entry)
  · exact fun inner => no_below inner _

theorem mem_leaves_iff (proper : tree.Proper) (there : tree.find? path = .ok (some found)) :
    inner ∈ ((entriesIn path found).filter (!·.2.isDirectory)).map (·.1) ↔
      ∃ kind, tree.Below path inner (leaf kind) := by
  simp only [List.mem_map, List.mem_filter, Prod.exists, exists_and_right, exists_eq_right,
    mem_entriesIn_iff_below proper there]
  constructor
  · rintro ⟨entry, below, is_leaf⟩
    cases entry with
    | leaf kind => exact ⟨kind, below⟩
    | directory entries => cases is_leaf
  · rintro ⟨kind, below⟩
    exact ⟨leaf kind, below, rfl⟩

/-- The sorted paths of the entries that are no directories, if the paths of all directories can be
followed. -/
theorem lists_sort (proper : tree.Proper) (there : tree.find? path = .ok (some found))
    (fit : ∀ listed ∈ entriesIn path found,
      listed.2.isDirectory = true → isOverlong listed.1 = false) :
    tree.Lists path (Order.sort precedes
      (((entriesIn path found).filter (!·.2.isDirectory)).map (·.1))) := by
  have mem_iff (inner : Path) :
      inner ∈ Order.sort precedes
          (((entriesIn path found).filter (!·.2.isDirectory)).map (·.1)) ↔
        ∃ kind, tree.Below path inner (leaf kind) := by
    rw [(Order.sort_perm _ _).mem_iff, mem_leaves_iff proper there]
  refine ⟨?_, mem_iff, fun none_refused => ?_⟩
  · apply Path.pairwise_before_sort
    rw [List.map_map]
    exact (nodup_entriesIn (proper.of_find? there)).sublist (List.filter_sublist.map _)
  · have answered {inner : Path} {kind : Leaf} (below : tree.Below path inner (leaf kind)) :
        isOverlong inner = false ∧ kind ≠ .barred := by
      obtain ⟨fits, not_barred, -⟩ | ⟨error, refused⟩ := below.leaf_cases proper
      · exact ⟨fits, not_barred⟩
      · exact absurd refused (none_refused inner ((mem_iff inner).mpr ⟨kind, below⟩) error)
    refine ⟨fun error failed => ?_, fun inner entry below => ?_, fun inner below => ?_⟩
    · cases there.symm.trans failed
    · cases entry with
      | leaf kind => exact (answered below).1
      | directory entries =>
          exact fit (inner, _) ((mem_entriesIn_iff_below proper there).mpr below) rfl
    · exact (answered below).2 rfl

/-- Listing the entries below a path that are no directories fails at a path that is refused, or it
gives the paths of all of them. -/
theorem files_cases (proper : tree.Proper) (path : Path) :
    (∃ error place, tree.files path = .error (error, place) ∧ tree.Refused place error ∧
      (place = path ∨ ∃ entry, tree.Below path place entry)) ∨
    ∃ files, tree.files path = .ok files ∧ tree.Lists path files := by
  rw [files]
  split
  next error failed =>
    split
    next absent =>
      refine .inr ⟨[], rfl, .nil (fun found => by simp [failed]) fun cause other_failed => ?_⟩
      rwa [← Except.error.inj (failed.symm.trans other_failed)]
    next stays => exact .inl ⟨error, path, rfl, ⟨failed, by simpa using stays⟩, .inl rfl⟩
  next above_tree =>
    refine .inr ⟨[], rfl, .nil (fun found => by simp [above_tree]) fun cause failed => ?_⟩
    cases above_tree.symm.trans failed
  next found there =>
    dsimp only
    split
    next overlong entry first =>
      have below := (mem_entriesIn_iff_below proper there).mp (List.mem_of_find?_eq_some first)
      have too_long := List.find?_some first
      rw [Bool.and_eq_true] at too_long
      exact .inl ⟨_, overlong, rfl, below.refused_of_isOverlong proper too_long.2, .inr ⟨_, below⟩⟩
    next none_overlong =>
      refine .inr ⟨_, rfl, lists_sort proper there fun listed mem is_directory => ?_⟩
      simpa [is_directory] using List.find?_eq_none.mp none_overlong listed mem

end Files

end FileTree
end SorobanLint
