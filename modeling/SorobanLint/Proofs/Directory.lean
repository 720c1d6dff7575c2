import SorobanLint.Proofs.Analyzers
import SorobanLint.Proofs.OneMore

/-!
# Scans of directories

Every file with a known suffix below a directory adds its own entry to the report, a result with
violations or a failure or nothing, whatever the files around it hold and whether they can be read
(`Scanner.scanDirectory_eq_reportOn`).  A path that is refused has no entry: it ends the scan, also
where the file it leads to could be reached by a shorter one (`Scanner.scanDirectory_detours`).
-/

namespace SorobanLint

namespace DirectoryReport

/-- Two reports, one behind the other. -/
instance : Append DirectoryReport where
  append front back :=
    ⟨front.results ++ back.results, front.failures ++ back.failures,
      front.filesScanned + back.filesScanned⟩

theorem mk_append (results : List ScanResult) (failures : List ScanFailure) (count : Nat)
    (back : DirectoryReport) :
    ⟨results, failures, count⟩ ++ back =
      (⟨results ++ back.results, failures ++ back.failures, count + back.filesScanned⟩ :
        DirectoryReport) := rfl

@[simp]
theorem empty_append (report : DirectoryReport) : ⟨[], [], 0⟩ ++ report = report := by
  rw [mk_append, List.nil_append, List.nil_append, Nat.zero_add]

end DirectoryReport

namespace Scanner

/-- What a file adds to the report on a directory: the result of its scan if there are violations,
a failure with the error of its scan, or nothing. -/
def added? (scanner : Scanner) (tree : FileTree) (file : Path) :
    Option (ScanResult ⊕ ScanFailure) :=
  match scanner.scanFile tree file with
  | .ok result => if result.hasViolations then some (.inl result) else none
  | .error error => some (.inr ⟨file.text, error.message⟩)

/-- The report with what each of the given files adds to it. -/
def reportOn (scanner : Scanner) (tree : FileTree) (files : List Path) : DirectoryReport where
  results := files.filterMap fun file => (scanner.added? tree file).bind Sum.getLeft?
  failures := files.filterMap fun file => (scanner.added? tree file).bind Sum.getRight?
  filesScanned := files.length

section Report

variable (scanner : Scanner) (tree : FileTree)

theorem reportOn_append (front back : List Path) :
    scanner.reportOn tree (front ++ back) =
      scanner.reportOn tree front ++ scanner.reportOn tree back := by
  rw [reportOn, List.filterMap_append, List.filterMap_append, List.length_append]
  rfl

/-- What a file adds depends on nothing in the tree but what is read at its path. -/
theorem added?_eq_of_read {other : FileTree} {file : Path}
    (same : tree.read file = other.read file) :
    scanner.added? tree file = scanner.added? other file := by
  rw [added?, added?, scanFile, scanFile, readFile, readFile, same]

theorem reportOn_eq_of_read {other : FileTree} {files : List Path}
    (same : ∀ file ∈ files, tree.read file = other.read file) :
    scanner.reportOn tree files = scanner.reportOn other files := by
  have entries (file : Path) (mem : file ∈ files) :=
    added?_eq_of_read scanner tree (same file mem)
  rw [reportOn, reportOn]
  congr 1
  · exact List.filterMap_congr fun file mem => by rw [entries file mem]
  · exact List.filterMap_congr fun file mem => by rw [entries file mem]

theorem addFile_eq_append (file : Path) (report : DirectoryReport) :
    addFile file.text (scanner.scanFile tree file) report =
      scanner.reportOn tree [file] ++ report := by
  rw [reportOn, DirectoryReport.mk_append, List.length_singleton, Nat.add_comm 1]
  cases outcome : scanner.scanFile tree file with
  | error error => simp [addFile, added?, outcome]
  | ok result =>
      cases violations : result.hasViolations with
      | false => simp [addFile, added?, outcome, violations]
      | true => simp [addFile, added?, outcome, violations]

end Report

/-- Whether a file is scanned for its suffix. -/
def isScanned (file : Path) : Bool := suffixes.contains file.suffix

section Files

variable {scanner : Scanner} {tree : FileTree} {path : Path}

/-- The scan of a file whose path holds no null character fails by the source alone. -/
theorem scanFile_error (parses : scanner.FailsByParsing) {file : Path}
    (no_null : file.holdsNull = false) {error : ScanError}
    (fails : scanner.scanFile tree file = .error error) :
    (∃ parse, error = .parse parse) ∨ ∃ language, error = .unsupported language file.text := by
  rw [scanFile, no_null, if_neg Bool.false_ne_true] at fails
  split at fails
  next fault unread => exact .inl ⟨fault, (Except.error.inj fails).symm⟩
  next content read => exact scanContent_error parses fails

/-- The scan goes on behind a file. -/
theorem scanFiles_cons (parses : scanner.FailsByParsing) {file : Path}
    (no_null : file.holdsNull = false) (is_file : tree.ask file false FileTree.isFile = .ok true)
    (rest : List Path) :
    scanner.scanFiles tree (file :: rest) = (scanner.scanFiles tree rest).map fun report =>
      scanner.reportOn tree ([file].filter isScanned) ++ report := by
  rw [scanFiles, is_file]
  dsimp only
  rw [Bool.not_true, Bool.false_or]
  cases scanned : isScanned file with
  | false =>
      have none_kept : [file].filter isScanned = [] := by simp [scanned]
      rw [isScanned] at scanned
      rw [scanned, Bool.not_false, if_pos rfl, none_kept]
      cases scanner.scanFiles tree rest with
      | error error => rfl
      | ok report => exact congrArg Except.ok (DirectoryReport.empty_append report).symm
  | true =>
      have kept : [file].filter isScanned = [file] := by simp [scanned]
      rw [isScanned] at scanned
      rw [scanned, Bool.not_true, if_neg Bool.false_ne_true, kept]
      simp only [← addFile_eq_append]
      cases outcome : scanner.scanFile tree file with
      | ok result => rfl
      | error error =>
          obtain ⟨parse, rfl⟩ | ⟨language, rfl⟩ := scanFile_error parses no_null outcome
          · rfl
          · rfl

/-- Where all paths are those of files, the scan reports on those with a known suffix. -/
theorem scanFiles_eq_ok (parses : scanner.FailsByParsing) {files : List Path}
    (no_null : ∀ file ∈ files, file.holdsNull = false)
    (are_files : ∀ file ∈ files, tree.ask file false FileTree.isFile = .ok true) :
    scanner.scanFiles tree files = .ok (scanner.reportOn tree (files.filter isScanned)) := by
  induction files with
  | nil => rfl
  | cons file rest ih =>
      obtain ⟨file_no_null, rest_no_null⟩ := List.forall_mem_cons.mp no_null
      obtain ⟨is_file, rest_are_files⟩ := List.forall_mem_cons.mp are_files
      have cons_filter : (file :: rest).filter isScanned =
          [file].filter isScanned ++ rest.filter isScanned := by
        rw [← List.filter_append, List.singleton_append]
      rw [scanFiles_cons parses file_no_null is_file, ih rest_no_null rest_are_files, cons_filter,
        reportOn_append]
      rfl

/-- A path that is refused ends the scan of files. -/
theorem scanFiles_eq_error (parses : scanner.FailsByParsing) {files : List Path}
    (no_null : ∀ file ∈ files, file.holdsNull = false)
    (asked : ∀ file ∈ files, tree.ask file false FileTree.isFile = .ok true ∨
      ∃ error, tree.Refused file error)
    (some_refused : ¬∀ file ∈ files, ∀ error, ¬tree.Refused file error) :
    ∃ file ∈ files, ∃ error, tree.Refused file error ∧
      scanner.scanFiles tree files = .error (.access error file) := by
  induction files with
  | nil => simp at some_refused
  | cons file rest ih =>
      obtain ⟨file_no_null, rest_no_null⟩ := List.forall_mem_cons.mp no_null
      obtain ⟨file_asked, rest_asked⟩ := List.forall_mem_cons.mp asked
      obtain is_file | ⟨error, refused⟩ := file_asked
      · rw [List.forall_mem_cons, not_and] at some_refused
        have not_refused (error : AccessError) : ¬tree.Refused file error := fun refused => by
          rw [FileTree.ask_eq_error_iff.mpr refused] at is_file
          cases is_file
        obtain ⟨other, mem, error, refused, ends⟩ :=
          ih rest_no_null rest_asked (some_refused not_refused)
        refine ⟨other, List.mem_cons_of_mem _ mem, error, refused, ?_⟩
        rw [scanFiles_cons parses file_no_null is_file, ends]
        rfl
      · refine ⟨file, List.mem_cons_self, error, refused, ?_⟩
        rw [scanFiles, FileTree.ask_eq_error_iff.mpr refused]

/-- Where nothing is refused, the scan of a directory reports on the files below it that have a
known suffix, in the order of their paths. -/
theorem scanDirectory_eq_ok (parses : scanner.FailsByParsing) (proper : tree.Proper)
    (accessible : tree.Accessible path) :
    ∃ files, files.Pairwise Path.Before ∧
      (∀ file, file ∈ files ↔
        (∃ entry, tree.Below path file entry ∧ entry.isFile = true) ∧ file.suffix ∈ suffixes) ∧
      scanner.scanDirectory tree path = .ok (scanner.reportOn tree files) := by
  obtain ⟨error, place, -, refused, located⟩ | ⟨files, listed, lists⟩ :=
    tree.files_cases proper path
  · exact absurd refused (accessible.not_refused proper located)
  · refine ⟨files.filter isScanned, lists.sorted.filter _, fun file => ?_, ?_⟩
    · rw [List.mem_filter, lists.mem_iff, accessible.isFile_below_iff, isScanned,
        List.contains_iff_mem]
    · rw [scanDirectory, listed]
      refine scanFiles_eq_ok parses (fun file mem => lists.holdsNull_eq_false proper mem) ?_
      intro file mem
      obtain is_file | ⟨error, refused⟩ := lists.ask_cases proper mem
      · exact is_file
      · obtain ⟨kind, below⟩ := (lists.mem_iff file).mp mem
        exact absurd refused (accessible.not_refused proper (.inr ⟨_, below⟩))

/-- Where something is refused, the scan of a directory ends at such a place. -/
theorem scanDirectory_eq_error (parses : scanner.FailsByParsing) (proper : tree.Proper)
    (inaccessible : ¬tree.Accessible path) :
    ∃ error place, (place = path ∨ ∃ entry, tree.Below path place entry) ∧
      tree.Refused place error ∧
      scanner.scanDirectory tree path = .error (.access error place) := by
  obtain ⟨error, place, listed, refused, located⟩ | ⟨files, listed, lists⟩ :=
    tree.files_cases proper path
  · exact ⟨error, place, located, refused, by rw [scanDirectory, listed]⟩
  · obtain ⟨file, mem, error, refused, ends⟩ := scanFiles_eq_error parses
      (fun file mem => lists.holdsNull_eq_false proper mem)
      (fun file mem => lists.ask_cases proper mem)
      fun none_refused => inaccessible (lists.accessible none_refused)
    obtain ⟨kind, below⟩ := (lists.mem_iff file).mp mem
    refine ⟨error, file, .inr ⟨_, below⟩, refused, ?_⟩
    rw [scanDirectory, listed]
    exact ends

/-- A file more in the tree adds its own entry to the report at most, and changes no other one. -/
theorem scanDirectory_gains (parses : scanner.FailsByParsing) (proper : tree.Proper)
    (accessible : tree.Accessible path) {files : List Path} (sorted : files.Pairwise Path.Before)
    (mem_iff : ∀ file, file ∈ files ↔
      (∃ entry, tree.Below path file entry ∧ entry.isFile = true) ∧ file.suffix ∈ suffixes)
    {kind : Leaf} {names : List String} {larger : FileTree}
    (gains : FileTree.Gains kind names tree larger) (larger_proper : larger.Proper)
    (larger_accessible : larger.Accessible path) :
    ∃ front new back, files = front ++ back ∧ new.length ≤ 1 ∧
      scanner.scanDirectory larger path =
        .ok (scanner.reportOn tree front ++ scanner.reportOn larger new ++
          scanner.reportOn tree back) := by
  obtain ⟨more, more_sorted, more_mem_iff, scans⟩ :=
    scanDirectory_eq_ok parses larger_proper larger_accessible
  obtain ⟨new, below_iff, is_new⟩ := gains.below_iff larger_proper path
  simp only [accessible.isFile_below_iff] at mem_iff
  simp only [larger_accessible.isFile_below_iff] at more_mem_iff
  have more_iff (file : Path) :
      file ∈ more ↔ file ∈ files ∨ new.filter (fun file => isScanned file) = some file := by
    rw [more_mem_iff, mem_iff, Option.filter_eq_some_iff, isScanned, List.contains_iff_mem]
    simp only [below_iff]
    constructor
    · rintro ⟨⟨content, old | ⟨same, -⟩⟩, known⟩
      · exact .inl ⟨⟨content, old⟩, known⟩
      · exact .inr ⟨same, known⟩
    · rintro (⟨⟨content, old⟩, known⟩ | ⟨same, known⟩)
      · exact ⟨⟨content, .inl old⟩, known⟩
      · exact ⟨⟨kind, .inr ⟨same, rfl⟩⟩, known⟩
  have apart (file : Path) (mem : file ∈ files) :
      new.filter (fun file => isScanned file) ≠ some file := by
    intro same
    obtain ⟨⟨content, below⟩, -⟩ := (mem_iff file).mp mem
    exact is_new file (Option.filter_eq_some_iff.mp same).1 _ below
  -- At the files of the smaller tree, both trees read the same.
  have same_read (file : Path) (mem : file ∈ files) : larger.read file = tree.read file := by
    obtain ⟨⟨content, below⟩, -⟩ := (mem_iff file).mp mem
    have larger_below := (below_iff file content).mpr (.inl below)
    rw [below.read_eq proper (accessible.isOverlong_eq file _ below),
      larger_below.read_eq larger_proper (larger_accessible.isOverlong_eq file _ larger_below)]
  obtain ⟨front, back, rfl, rfl⟩ :=
    Path.eq_insert_of_pairwise_before sorted more_sorted more_iff apart
  refine ⟨front, (new.filter fun file => isScanned file).toList, back, rfl, ?_, ?_⟩
  · exact Option.length_toList_le
  · have front_same := reportOn_eq_of_read scanner larger fun file mem =>
      same_read file (List.mem_append_left back mem)
    have back_same := reportOn_eq_of_read scanner larger fun file mem =>
      same_read file (List.mem_append_right front mem)
    rw [scans, reportOn_append, reportOn_append, front_same, back_same]

/-- A scan of a directory, by a scanner whose analyzers fail by parse errors only.  Where nothing is
refused, it reports on the files below the directory that have a known suffix, in the order of their
paths, each by itself and whether it can be read or not; and a file more in the tree adds at most
its own entry to the report and changes no other one.  Where something is refused, a path that is
too long or an entry that is barred, the scan ends at such a place. -/
theorem scanDirectory_eq_reportOn (parses : scanner.FailsByParsing) (proper : tree.Proper)
    (path : Path) :
    (tree.Accessible path → ∃ files, files.Pairwise Path.Before ∧
      (∀ file, file ∈ files ↔
        (∃ entry, tree.Below path file entry ∧ entry.isFile = true) ∧ file.suffix ∈ suffixes) ∧
      scanner.scanDirectory tree path = .ok (scanner.reportOn tree files) ∧
      ∀ kind names larger, FileTree.Gains kind names tree larger → larger.Proper →
        larger.Accessible path → ∃ front new back, files = front ++ back ∧ new.length ≤ 1 ∧
          scanner.scanDirectory larger path =
            .ok (scanner.reportOn tree front ++ scanner.reportOn larger new ++
              scanner.reportOn tree back)) ∧
    (¬tree.Accessible path → ∃ error place,
      (place = path ∨ ∃ entry, tree.Below path place entry) ∧ tree.Refused place error ∧
      scanner.scanDirectory tree path = .error (.access error place)) := by
  refine ⟨fun accessible => ?_, scanDirectory_eq_error parses proper⟩
  obtain ⟨files, sorted, mem_iff, scans⟩ := scanDirectory_eq_ok parses proper accessible
  refine ⟨files, sorted, mem_iff, scans, fun kind names larger gains larger_proper => ?_⟩
  exact scanDirectory_gains parses proper accessible sorted mem_iff gains larger_proper

end Files

/-- Four files are scanned: one cannot be decoded, one cannot be read, and one has no analyzer.  A
fifth one is put among them. -/
theorem scanDirectory_eq_reportOn_mixed :
    let contract : FileTree := .file <| Utf8.encode
      "use soroban_sdk::Env;\n#[contracttype]\npub struct A \x7b pub x: u64 \x7d\n".toList
    let undecodable : FileTree := .file [0xff]
    let unreadable : FileTree := .leaf (.unreadable .permissionDenied)
    let vyper : FileTree := .file (Utf8.encode "x = 1\n".toList)
    let clean := Leaf.octets <| Utf8.encode
      "use soroban_sdk::Env;\n#[contracttype]\npub struct B \x7b \x7d\n".toList
    let tree : FileTree := .directory [
      ("c.rs", contract), ("b", .directory [("x.vy", vyper)]), ("a.rs", undecodable),
      ("d.rs", unreadable)]
    let larger : FileTree := .directory [
      ("c.rs", contract), ("b", .directory [("x.vy", vyper), ("y.rs", .leaf clean)]),
      ("a.rs", undecodable), ("d.rs", unreadable)]
    let path : Path := ⟨"", []⟩
    let scanner := ofEngine Engine.default none
    scanner.FailsByParsing ∧ tree.Proper ∧ tree.Accessible path ∧ larger.Proper ∧
      larger.Accessible path ∧ FileTree.Gains clean ["b", "y.rs"] tree larger ∧
      ∃ front new back,
        (∀ file, file ∈ front ++ back ↔
          (∃ entry, tree.Below path file entry ∧ entry.isFile = true) ∧ file.suffix ∈ suffixes) ∧
        scanner.scanDirectory tree path = .ok (scanner.reportOn tree (front ++ back)) ∧
        new.length ≤ 1 ∧
        scanner.scanDirectory larger path =
          .ok (scanner.reportOn tree front ++ scanner.reportOn larger new ++
            scanner.reportOn tree back) := by
  intro contract undecodable unreadable vyper clean tree larger path scanner
  have around_proper {inner : FileTree} (inner_proper : inner.Proper) :
      (FileTree.directory [("c.rs", contract), ("b", inner), ("a.rs", undecodable),
        ("d.rs", unreadable)]).Proper := by
    refine .of_directory (by simp) ?_
    simp only [List.forall_mem_cons, List.not_mem_nil, false_implies, implies_true, and_true]
    exact ⟨⟨by decide, .of_leaf _⟩, ⟨by decide, inner_proper⟩, ⟨by decide, .of_leaf _⟩,
      ⟨by decide, .of_leaf _⟩⟩
  have proper : tree.Proper :=
    around_proper (.of_directory (by decide) (by simpa using ⟨by decide, .of_leaf _⟩))
  have larger_proper : larger.Proper := by
    refine around_proper (.of_directory (by decide) ?_)
    simp only [List.forall_mem_cons, List.not_mem_nil, false_implies, implies_true, and_true]
    exact ⟨⟨by decide, .of_leaf _⟩, ⟨by decide, .of_leaf _⟩⟩
  have accessible : tree.Accessible path := .of_entriesIn proper rfl (by decide)
  have larger_accessible : larger.Accessible path := .of_entriesIn larger_proper rfl (by decide)
  have gains : FileTree.Gains clean ["b", "y.rs"] tree larger :=
    .within "b" [("c.rs", contract)] [("a.rs", undecodable), ("d.rs", unreadable)]
      (.here "y.rs" [("x.vy", vyper)] [])
  have parses := (builtIn_ofEngine Engine.default none).failsByParsing
  obtain ⟨files, -, mem_iff, reported, added⟩ :=
    (scanDirectory_eq_reportOn parses proper path).1 accessible
  obtain ⟨front, new, back, rfl, small, larger_reported⟩ :=
    added clean _ larger gains larger_proper larger_accessible
  exact ⟨parses, proper, accessible, larger_proper, larger_accessible, gains, front, new, back,
    mem_iff, reported, small, larger_reported⟩

end Scanner

/-! ## A path that is too long -/

namespace FileTree

/-- Going into a directory and back out leads nowhere else, however often. -/
theorem follow?_back_and_forth {name : String} {entries inner : List (String × FileTree)}
    (different : name ≠ "..") (present : lookup? name entries = some (directory inner))
    (count : Nat) (names : List String) :
    follow? (some (directory entries, []))
        ((List.replicate count [name, ".."]).flatten ++ names) =
      follow? (some (directory entries, [])) names := by
  induction count with
  | zero => rfl
  | succ count ih =>
      rw [List.replicate_succ, List.flatten_cons, List.append_assoc, List.cons_append,
        follow?_present different present]
      exact ih

end FileTree

/-- Each detour through a directory with a short name adds five octets to the text of a path. -/
theorem Path.utf8ByteSize_detours (count : Nat) {names : List String} (more : names ≠ []) :
    (Path.text ⟨"", (List.replicate count ["d", ".."]).flatten ++ names⟩).utf8ByteSize =
      5 * count + ("/".intercalate names).utf8ByteSize := by
  rw [Path.text, if_neg (by simp [more]), String.empty_append]
  induction count with
  | zero => simp
  | succ count ih =>
      rw [List.replicate_succ, List.flatten_cons, List.append_assoc, List.cons_append,
        List.singleton_append, String.intercalate_cons_of_ne_nil (List.cons_ne_nil _ _),
        String.intercalate_cons_of_ne_nil (by simp [more])]
      simp only [String.utf8ByteSize_append, ih]
      have short : "d".utf8ByteSize = 1 ∧ "/".utf8ByteSize = 1 ∧ "..".utf8ByteSize = 2 := by decide
      omega

namespace Scanner

/-- A directory holds one contract, and a path leads to it by detours.  The path can be followed,
but that of the contract below it cannot: nothing is reported on it, and the scan fails. -/
theorem scanDirectory_detours :
    let content := Utf8.encode
      "use soroban_sdk::Env;\n#[contracttype]\npub struct A \x7b pub x: u64 \x7d\n".toList
    let tree : FileTree := .directory [("d", .directory [("a.rs", .file content)])]
    let path : Path := ⟨"", (List.replicate 818 ["d", ".."]).flatten ++ ["d"]⟩
    let scanner := ofEngine Engine.default none
    scanner.FailsByParsing ∧ tree.Proper ∧ tree.Below path (path.child "a.rs") (.file content) ∧
      (path.child "a.rs").suffix ∈ suffixes ∧
      scanner.scanDirectory tree path = .error (.access .nameTooLong (path.child "a.rs")) := by
  intro content tree path scanner
  have proper : tree.Proper := by
    have inner : (FileTree.directory [("a.rs", .file content)]).Proper :=
      .of_directory (by simp) (by simpa using ⟨by decide, .of_leaf _⟩)
    exact .of_directory (by simp) (by simpa using ⟨by decide, inner⟩)
  have path_fits : FileTree.isOverlong path = false := by
    have size := Path.utf8ByteSize_detours 818 (List.cons_ne_nil "d" [])
    rw [FileTree.isOverlong, size]
    decide
  have file_overlong : FileTree.isOverlong (path.child "a.rs") = true := by
    have size := Path.utf8ByteSize_detours 818 (List.cons_ne_nil "d" ["a.rs"])
    rw [FileTree.isOverlong, Path.child, List.append_assoc, List.singleton_append, size]
    decide
  have no_null : path.holdsNull = false := by
    rw [Path.holdsNull, List.any_append, List.any_flatten, List.any_replicate]
    decide
  have there : tree.find? path = .ok (some (.directory [("a.rs", .file content)])) :=
    FileTree.find?_eq_ok_some_iff.mpr ⟨no_null, path_fits, by simp, _,
      FileTree.follow?_back_and_forth (by decide) rfl 818 ["d"]⟩
  have listed : tree.files path = .ok [path.child "a.rs"] := by
    rw [FileTree.files, there]
    rfl
  have below : tree.Below path (path.child "a.rs") (.file content) :=
    ⟨_, ["a.rs"], there, List.cons_ne_nil _ _, rfl, rfl⟩
  have refused := below.refused_of_isOverlong proper file_overlong
  refine ⟨(builtIn_ofEngine _ _).failsByParsing, proper, below, ?_, ?_⟩
  · rw [Path.suffix, Path.child, List.getLastD_concat]
    decide
  · rw [scanDirectory, listed]
    dsimp only
    rw [scanFiles, FileTree.ask_eq_error_iff.mpr refused]

end Scanner
end SorobanLint
