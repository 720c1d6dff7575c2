import SorobanLint.Proofs.Catalog
import SorobanLint.Proofs.Scan
import SorobanLint.Proofs.Words
import SorobanLint.Scan.Scanner

/-!
# Sources with the same lines

A source is read by its lines alone: from sources with the same lines the same contract is
recovered, apart from the source it carries (`Contract.parse_of_linesOf_eq`), and the same
violations are found in it.  Newlines of another kind leave the lines as they are, so a file whose
newlines are normalized when it is read is scanned like the text that is written in it
(`Engine.readsAlike_of_lines`).
-/

namespace SorobanLint

open Text

/-! ## Markers in a text with normalized newlines -/

namespace Text

variable {marker : List Char}

/-- A text without newlines begins a normalized text if it begins the text as it was. -/
theorem isPrefixOf_normalizeNewlines (plain : ∀ c ∈ marker, c ≠ '\r' ∧ c ≠ '\n') (s : List Char) :
    marker.isPrefixOf (normalizeNewlines s) = marker.isPrefixOf s := by
  induction s generalizing marker with
  | nil => rfl
  | cons c rest ih =>
      cases marker with
      | nil => rfl
      | cons d marker =>
          have d_plain := plain d List.mem_cons_self
          by_cases hc : c = '\r'
          · subst hc
            have not_return : (d == '\r') = false := beq_false_of_ne d_plain.1
            have not_feed : (d == '\n') = false := beq_false_of_ne d_plain.2
            rw [List.isPrefixOf_cons_cons, not_return, Bool.false_and, normalizeNewlines, if_pos rfl]
            split
            next feed =>
              obtain ⟨rest, rfl⟩ := List.head?_eq_some_iff.mp feed
              rw [ih plain, List.isPrefixOf_cons_cons, not_feed, Bool.false_and]
            next => rw [List.isPrefixOf_cons_cons, not_feed, Bool.false_and]
          · have rest_plain : ∀ c ∈ marker, c ≠ '\r' ∧ c ≠ '\n' :=
              fun c mem => plain c (List.mem_cons_of_mem d mem)
            rw [normalizeNewlines, if_neg hc, List.isPrefixOf_cons_cons, List.isPrefixOf_cons_cons,
              ih rest_plain]

theorem contains_eq_or (marker s : List Char) :
    contains marker s = (marker.isPrefixOf s || contains marker s) := by
  cases s with
  | nil => cases marker <;> rfl
  | cons c rest => rw [contains, ← Bool.or_assoc, Bool.or_self]

/-- Normalizing the newlines neither makes nor destroys a marker that holds none. -/
theorem contains_normalizeNewlines (plain : ∀ c ∈ marker, c ≠ '\r' ∧ c ≠ '\n') (s : List Char) :
    contains marker (normalizeNewlines s) = contains marker s := by
  induction s with
  | nil => rfl
  | cons c rest ih =>
      rw [contains, ← isPrefixOf_normalizeNewlines plain (c :: rest), ← ih, normalizeNewlines]
      split
      · split
        · exact contains_eq_or marker (normalizeNewlines rest)
        · rfl
      · rfl

theorem linesOf_normalizeNewlines (s : List Char) :
    linesOf (String.ofList (normalizeNewlines s)) = linesOf (String.ofList s) := by
  rw [linesOf, linesOf, String.toList_ofList, String.toList_ofList, splitLines_normalizeNewlines]

end Text

namespace Language

/-- Whatever is looked for to tell the language of a source. -/
def markers : List String :=
  sorobanImport :: (sorobanMarkers ++ vyperMarkers ++ rustMarkers)

theorem ofMarkers?_congr {has other : String → Bool}
    (same : ∀ marker ∈ markers, has marker = other marker) : ofMarkers? has = ofMarkers? other := by
  have any_same (list : List String) (inside : ∀ marker ∈ list, marker ∈ markers) :
      list.any has = list.any other := by
    rw [Bool.eq_iff_iff, List.any_eq_true, List.any_eq_true]
    exact exists_congr fun marker =>
      and_congr_right fun mem => by rw [same marker (inside marker mem)]
  have soroban := any_same sorobanMarkers (by simp +contextual [markers])
  have vyper := any_same vyperMarkers (by simp +contextual [markers])
  have rust := any_same rustMarkers (by simp +contextual [markers])
  rw [ofMarkers?, ofMarkers?, same sorobanImport List.mem_cons_self, soroban, vyper, rust]

theorem contains_marker_normalizeNewlines {marker : String} (mem : marker ∈ markers)
    (s : List Char) : contains marker.toList (normalizeNewlines s) = contains marker.toList s := by
  have plain : markers.all fun marker => marker.toList.all fun c => c ≠ '\r' ∧ c ≠ '\n' := rfl
  exact contains_normalizeNewlines (forall_mem_of_all (List.all_eq_true.mp plain marker mem)) s

/-- Normalizing the newlines of a source does not hide its language. -/
theorem detect?_normalizeNewlines (s : List Char) :
    detect? (String.ofList (normalizeNewlines s)) = detect? (String.ofList s) := by
  rw [detect?, detect?, String.toList_ofList, String.toList_ofList]
  exact ofMarkers?_congr fun marker mem => contains_marker_normalizeNewlines mem s

end Language

/-! ## Contracts -/

namespace Contract

/-- The contract as it is recovered from another source. -/
def withSource (contract : Contract) (source : String) : Contract :=
  { contract with source }

/-- From sources with the same lines the same contract is recovered, apart from the source, or
recovering it fails with the same error. -/
theorem parse_of_linesOf_eq {first second : String} (same : linesOf first = linesOf second)
    (path : String) : parse first path = (parse second path).map (·.withSource first) := by
  simp only [parse, same]
  generalize Outline.scan path (Line.ofTexts (linesOf second)) = outline
  split
  · rfl
  · split <;> rfl
  · split <;> rfl

end Contract

/-- No check looks at the source that a contract carries. -/
theorem Check.findings_withSource (check : Check) (contract : Contract) (source : String) :
    check.findings (contract.withSource source) = check.findings contract := by
  cases check <;> rfl

/-- A rule of the catalog looks up columns on the lines of the source, and nothing else in it. -/
theorem Rule.FromCatalog.apply_withSource {rule : Rule} (catalog : rule.FromCatalog)
    {contract : Contract} {source : String} (same : linesOf source = linesOf contract.source) :
    rule.apply (contract.withSource source) = rule.apply contract := by
  obtain ⟨check, severity, enabled, rfl⟩ := catalog
  have source_eq : (contract.withSource source).source = source := rfl
  simp only [Check.rule, report, Check.findings_withSource, source_eq, same]

/-! ## Engines -/

namespace Engine

variable {engine : Engine} {first second : String}

theorem check_withSource (catalog : ∀ rule ∈ engine.rules, rule.FromCatalog) {contract : Contract}
    {source : String} (same : linesOf source = linesOf contract.source) :
    engine.check (contract.withSource source) = engine.check contract := by
  rw [check, check]
  congr 1
  refine List.flatMap_congr ?_
  intro rule mem
  rw [(catalog rule (List.mem_of_mem_filter mem)).apply_withSource same]

/-- Two sources are read alike: the same contract is recovered from them, apart from the source it
carries, and the same violations are found in it, or both fail with the same error. -/
structure ReadsAlike (engine : Engine) (first second path : String) : Prop where
  /-- The contracts differ in the source alone, or the errors are the same. -/
  parsed : Contract.parse first path = (Contract.parse second path).map (·.withSource first)
  /-- The violations are the same, or the errors are. -/
  analyzed : engine.analyze first path = engine.analyze second path

theorem ReadsAlike.of_linesOf_eq (catalog : ∀ rule ∈ engine.rules, rule.FromCatalog)
    (same : linesOf first = linesOf second) (path : String) :
    engine.ReadsAlike first second path := by
  have parsed := Contract.parse_of_linesOf_eq same path
  refine ⟨parsed, ?_⟩
  rw [analyze, analyze, parsed]
  cases recovered : Contract.parse second path with
  | error error => rfl
  | ok contract =>
      rw [← Contract.source_of_parse recovered] at same
      exact congrArg Except.ok (check_withSource catalog same)

end Engine

namespace Scanner

variable {tree : FileTree} {file : Path} {octets : List UInt8} {content : List Char}

theorem readFile_eq_ok (read : tree.read file = .ok octets)
    (decoded : Utf8.decode octets = .ok content) :
    readFile tree file = .ok (String.ofList (normalizeNewlines content)) := by
  simp only [readFile, read, decoded]

theorem resolveLanguage_normalizeNewlines (scanner : Scanner) (s : List Char)
    (language : Option Language) :
    scanner.resolveLanguage (String.ofList (normalizeNewlines s)) language =
      scanner.resolveLanguage (String.ofList s) language := by
  have imported := Language.contains_marker_normalizeNewlines List.mem_cons_self s
  simp only [resolveLanguage, Language.detect?_normalizeNewlines, String.toList_ofList, imported]

/-- Normalizing the newlines of a text changes nothing in its scan. -/
theorem scanContent_normalizeNewlines {engine : Engine}
    (catalog : ∀ rule ∈ engine.rules, rule.FromCatalog) (defaultLanguage : Option Language)
    (s : List Char) (source : String) (language : Option Language) :
    (ofEngine engine defaultLanguage).scanContent (String.ofList (normalizeNewlines s)) source
        language =
      (ofEngine engine defaultLanguage).scanContent (String.ofList s) source language := by
  have alike := Engine.ReadsAlike.of_linesOf_eq catalog (linesOf_normalizeNewlines s) source
  simp only [scanContent, resolveLanguage_normalizeNewlines]
  generalize resolveLanguage _ _ _ = resolved
  match resolved with
  | none => rfl
  | some .rust => rfl
  | some .vyper => rfl
  | some .soroban =>
      have analyzed := congrArg (Except.mapError ScanError.parse) alike.analyzed
      exact congrArg (Except.map (ScanResult.mk source)) analyzed

/-- A file is scanned like the text that is written in it, whatever its newlines. -/
theorem scanFile_eq_scanContent {engine : Engine}
    (catalog : ∀ rule ∈ engine.rules, rule.FromCatalog) (defaultLanguage : Option Language)
    (possible : file.holdsNull = false) (read : tree.read file = .ok octets)
    (decoded : Utf8.decode octets = .ok content) :
    (ofEngine engine defaultLanguage).scanFile tree file =
      (ofEngine engine defaultLanguage).scanContent (String.ofList content) file.text
        (Language.detect? (String.ofList content) <|> Language.ofExtension? file.suffix) := by
  rw [scanFile, possible, if_neg Bool.false_ne_true, readFile_eq_ok read decoded]
  simp only [Language.detect?_normalizeNewlines]
  exact scanContent_normalizeNewlines catalog defaultLanguage content file.text _

end Scanner

namespace Engine

/-- Sources with the same lines are read alike.  So is every source with its newlines normalized,
and what is read of a file like the text that is written in it; the scan of the file finds what the
scan of that text finds. -/
theorem readsAlike_of_lines {engine : Engine}
    (catalog : ∀ rule ∈ engine.rules, rule.FromCatalog) :
    (∀ first second path, linesOf first = linesOf second → engine.ReadsAlike first second path) ∧
      (∀ source path,
        engine.ReadsAlike (String.ofList (normalizeNewlines source.toList)) source path) ∧
      ∀ (tree : FileTree) (file : Path) (octets : List UInt8) (content : String),
        tree.read file = .ok octets → Utf8.decode octets = .ok content.toList →
        (∃ text, Scanner.readFile tree file = .ok text ∧
          ∀ path, engine.ReadsAlike text content path) ∧
        (file.holdsNull = false → ∀ defaultLanguage,
          let scanner := Scanner.ofEngine engine defaultLanguage
          scanner.scanFile tree file =
            scanner.scanContent content file.text
              (Language.detect? content <|> Language.ofExtension? file.suffix)) := by
  have normalized (source path : String) :
      engine.ReadsAlike (String.ofList (normalizeNewlines source.toList)) source path := by
    refine .of_linesOf_eq catalog ?_ path
    rw [linesOf_normalizeNewlines, String.ofList_toList]
  refine ⟨fun first second path same => .of_linesOf_eq catalog same path, normalized, ?_⟩
  intro tree file octets content read decoded
  constructor
  · exact ⟨_, Scanner.readFile_eq_ok read decoded, normalized content⟩
  · intro possible defaultLanguage
    have scanned :=
      Scanner.scanFile_eq_scanContent catalog defaultLanguage possible read decoded
    rwa [String.ofList_toList] at scanned

/-- A contract with newlines of three kinds, as a text and in a file. -/
theorem readsAlike_mixed_newlines :
    let mixed := "use soroban_sdk;\r\n#[contracttype]\rstruct A \x7b\r\n  x: u8,\n\x7d\r"
    let plain := "use soroban_sdk;\n#[contracttype]\nstruct A \x7b\n  x: u8,\n\x7d\n"
    let unused : Violation := {
      ruleName := "soroban-unused-state-variables"
      description := "State variable 'x' of 'A' is never used by any contract function"
      severity := .warning
      line := 4
      column := 3
      variableName := "x"
      suggestion := "Remove 'x' to reduce storage footprint and ledger rent" }
    let file : Path := ⟨"", ["a.rs"]⟩
    let octets := Utf8.encode mixed.toList
    let tree : FileTree := .directory [("a.rs", .file octets)]
    let scanner := Scanner.ofEngine default none
    (∀ rule ∈ default.rules, rule.FromCatalog) ∧ linesOf mixed = linesOf plain ∧
      default.analyze plain "a.rs" = .ok [unused] ∧ default.analyze mixed "a.rs" = .ok [unused] ∧
      tree.read file = .ok octets ∧ Utf8.decode octets = .ok mixed.toList ∧
      file.holdsNull = false ∧ scanner.scanFile tree file = .ok ⟨"a.rs", [unused]⟩ := by
  intro mixed plain unused file octets tree scanner
  have catalog : ∀ rule ∈ default.rules, rule.FromCatalog :=
    fun rule mem => Rule.fromCatalog_of_mem_defaults mem
  have same : linesOf mixed = linesOf plain := by decide +kernel
  have read : tree.read file = .ok octets := by decide +kernel
  have decoded : Utf8.decode octets = .ok mixed.toList := by decide +kernel
  have possible : file.holdsNull = false := rfl
  have analyzed : default.analyze plain "a.rs" = .ok [unused] := by decide +kernel
  obtain ⟨by_lines, -, on_disk⟩ := readsAlike_of_lines catalog
  have analyzed_mixed := (by_lines mixed plain "a.rs" same).analyzed.trans analyzed
  have scanned := (on_disk tree file octets mixed read decoded).2 possible none
  refine ⟨catalog, same, analyzed, analyzed_mixed, read, decoded, possible, scanned.trans ?_⟩
  have detected : Language.detect? mixed = some .soroban := by decide +kernel
  rw [detected]
  show ((default.analyze mixed "a.rs").mapError ScanError.parse).map (ScanResult.mk "a.rs") = _
  rw [analyzed_mixed]
  rfl

end Engine
end SorobanLint
