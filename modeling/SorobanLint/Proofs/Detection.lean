import SorobanLint.Proofs.Marked
import SorobanLint.Proofs.OnDisk

/-!
# Languages of recovered contracts

A source from which a contract is recovered holds a marker attribute.  If the attribute is spelled
like one of those that tell Soroban, and the import occurs, the source is taken for Soroban
(`Scanner.resolveLanguage_of_parse`).  A marker that is spelled otherwise leaves the choice to what
else stands in the source (`Scanner.resolveLanguage_pathMarker`).
-/

namespace SorobanLint

open Text

/-! ## Parts of a source -/

namespace Text

variable {marker s t : List Char}

theorem contains_iff (marker s : List Char) : contains marker s = true ↔ marker <:+: s := by
  induction s with
  | nil => rw [contains, List.isEmpty_iff, List.infix_nil]
  | cons c s ih =>
      rw [contains, Bool.or_eq_true, ih, List.isPrefixOf_iff_prefix, List.infix_cons_iff]

/-- A text without line feeds that begins at some place of joined lines stands in one of them. -/
theorem exists_infix_of_joinLines {lines : List (List Char)} (feedless : '\n' ∉ marker)
    (nonempty : marker ≠ []) (begins : marker <+: t) (inside : t <:+ joinLines lines) :
    ∃ line ∈ lines, marker <:+: line := by
  obtain ⟨front, whole⟩ := inside
  obtain ⟨rest, rfl⟩ := begins
  have some_lines : lines ≠ [] := by
    rintro rfl
    simp [nonempty] at whole
  obtain ⟨above, left, right, below, rfl, -, cut⟩ := cut_joinLines some_lines whole.symm
  rw [joinLines_cons] at cut
  refine ⟨left ++ right, by simp, ?_⟩
  rcases List.append_eq_append_iff.mp cut with ⟨more, rfl, -⟩ | ⟨excess, marker_eq, below_eq⟩
  · exact ⟨left, more, by rw [List.append_assoc]⟩
  · cases excess with
    | nil =>
        rw [List.append_nil] at marker_eq
        exact ⟨left, [], by rw [marker_eq, List.append_nil]⟩
    | cons c excess =>
        cases below with
        | nil => simp at below_eq
        | cons line below =>
            obtain ⟨rfl, -⟩ := List.cons.inj below_eq
            simp [marker_eq] at feedless

/-- Each line of a text stands in it, and the first one begins it. -/
theorem infix_of_mem_splitLines (s : List Char) :
    (∀ line ∈ splitLines s, line <:+: s) ∧ ∀ line ∈ (splitLines s).head?, line <+: s := by
  induction s with
  | nil => exact ⟨nofun, nofun⟩
  | cons c s ih =>
      have behind {line : List Char} (inside : line <:+: s) : line <:+: c :: s :=
        inside.trans (List.suffix_cons c s).isInfix
      rw [splitLines]
      split
      next feed =>
        obtain ⟨rest, rfl⟩ := List.head?_eq_some_iff.mp feed.2
        refine ⟨fun line mem => behind (ih.1 line mem), ?_⟩
        have first : (splitLines ('\n' :: rest)).head? = some [] := by
          rw [splitLines, if_neg (by simp), if_pos (by decide), List.head?_cons]
        rw [first]
        rintro line ⟨⟩
        exact List.nil_prefix
      next =>
        split
        next =>
          refine
            ⟨List.forall_mem_cons.mpr ⟨List.nil_infix, fun line mem => behind (ih.1 line mem)⟩, ?_⟩
          rintro line ⟨⟩
          exact List.nil_prefix
        next =>
          cases lines : splitLines s with
          | nil =>
              have alone : [c] <+: c :: s := List.prefix_append [c] s
              refine ⟨List.forall_mem_singleton.mpr alone.isInfix, ?_⟩
              rintro line ⟨⟩
              exact alone
          | cons first rest =>
              rw [lines] at ih
              have longer : c :: first <+: c :: s := (List.prefix_cons_inj c).mpr (ih.2 first rfl)
              refine ⟨List.forall_mem_cons.mpr ⟨longer.isInfix, fun line mem => ?_⟩, ?_⟩
              · exact behind (ih.1 line (List.mem_cons_of_mem first mem))
              · rintro line ⟨⟩
                exact longer

end Text

/-! ## Unmasked text -/

namespace Mask

variable {marker text : List Char}

theorem prefix_of_prefix_line (spaceless : ' ' ∉ marker) (state : MaskState)
    (begins : marker <+: (line state text).1) : marker <+: text := by
  induction text generalizing state marker with
  | nil => exact begins
  | cons c rest ih =>
      cases marker with
      | nil => exact List.nil_prefix
      | cons d marker =>
          rw [line, List.cons_prefix_cons] at begins
          obtain ⟨other, spaceless⟩ := List.ne_and_not_mem_of_not_mem_cons spaceless
          obtain ⟨same, begins⟩ := begins
          rw [List.cons_prefix_cons]
          refine ⟨?_, ih spaceless _ begins⟩
          rcases step_fst state c rest with kept | blank
          · rw [same, kept]
          · exact absurd (same.trans blank).symm other

/-- What stands in a masked line, without a space, stands in the line itself. -/
theorem infix_of_infix_line (spaceless : ' ' ∉ marker) (state : MaskState)
    (inside : marker <:+: (line state text).1) : marker <:+: text := by
  induction text generalizing state with
  | nil => exact inside
  | cons c rest ih =>
      rw [line] at inside
      rcases List.infix_cons_iff.mp inside with begins | behind
      · have begins_line : marker <+: (line state (c :: rest)).1 := begins
        exact (prefix_of_prefix_line spaceless state begins_line).isInfix
      · exact (ih _ behind).trans (List.suffix_cons c rest).isInfix

theorem exists_line_of_mem_linesFrom {lines : List (List Char)} {code : List Char}
    {state : MaskState} (mem : code ∈ linesFrom state lines) :
    ∃ text ∈ lines, ∃ state, code = (line state text).1 := by
  induction lines generalizing state with
  | nil => contradiction
  | cons text rest ih =>
      rcases List.mem_cons.mp mem with rfl | mem
      · exact ⟨text, List.mem_cons_self, state, rfl⟩
      · obtain ⟨other, other_mem, found⟩ := ih mem
        exact ⟨other, List.mem_cons_of_mem text other_mem, found⟩

end Mask

/-- What begins at some place of a masked source, without a blank, stands in the source. -/
theorem infix_source_of_mask {source : String} {marker text : List Char} (feedless : '\n' ∉ marker)
    (spaceless : ' ' ∉ marker) (nonempty : marker ≠ []) (begins : marker <+: text)
    (inside : text <:+ joinLines (mask (linesOf source))) : marker <:+: source.toList := by
  obtain ⟨code, code_mem, in_code⟩ :=
    exists_infix_of_joinLines feedless nonempty begins inside
  obtain ⟨line, line_mem, state, rfl⟩ := Mask.exists_line_of_mem_linesFrom code_mem
  have in_line := Mask.infix_of_infix_line spaceless state in_code
  exact in_line.trans ((infix_of_mem_splitLines source.toList).1 line line_mem)

/-! ## Languages -/

namespace Language

variable {source : String}

/-- The text begins with one of the attributes that tell Soroban. -/
def Spelled (text : List Char) : Prop :=
  ∃ marker ∈ sorobanMarkers, marker.toList <+: text

instance (text : List Char) : Decidable (Spelled text) :=
  inferInstanceAs (Decidable (∃ _ ∈ _, _))

/-- The import and one of the attributes tell Soroban, whatever else stands in the source. -/
theorem detect?_eq_soroban {marker : String} (mem : marker ∈ sorobanMarkers)
    (imported : contains sorobanImport.toList source.toList = true)
    (marked : contains marker.toList source.toList = true) : detect? source = some .soroban := by
  have any_marker :
      sorobanMarkers.any (fun marker => contains marker.toList source.toList) = true :=
    List.any_eq_true.mpr ⟨marker, mem, marked⟩
  rw [detect?, ofMarkers?, imported, any_marker]
  rfl

/-- A source without the markers of other languages tells Soroban or nothing. -/
theorem detect?_of_plain
    (plain : ∀ marker ∈ vyperMarkers ++ rustMarkers, contains marker.toList source.toList = false) :
    detect? source = some .soroban ∨ detect? source = none := by
  have no_vyper :
      vyperMarkers.any (fun marker => contains marker.toList source.toList) = false := by
    simpa using fun marker mem => plain marker (List.mem_append_left _ mem)
  have no_rust : rustMarkers.any (fun marker => contains marker.toList source.toList) = false := by
    simpa using fun marker mem => plain marker (List.mem_append_right _ mem)
  rw [detect?, ofMarkers?, no_vyper, no_rust]
  split
  · exact .inl rfl
  · exact .inr rfl

end Language

namespace Scanner

variable {source path : String} {contract : Contract}

/-- A source with the import, from which a contract is recovered, is taken for Soroban, unless an
attribute that marks a struct is spelled like none of those that tell Soroban and a marker of
another language stands in the source. -/
theorem resolveLanguage_of_parse (scanner : Scanner)
    (imported : contains Language.sorobanImport.toList source.toList = true)
    (parsed : Contract.parse source path = .ok contract)
    (told : (∀ text ∈ (joinLines (mask (linesOf source))).tails,
        Attribute.Marks Outline.typeMarkers Struct.header text → Language.Spelled text) ∨
      ∀ marker ∈ Language.vyperMarkers ++ Language.rustMarkers,
        contains marker.toList source.toList = false) :
    scanner.resolveLanguage source none = some .soroban := by
  rcases told with spelled | plain
  · obtain ⟨outline, first, rest, rfl, -, found, -⟩ := Contract.parse_eq_ok parsed
    have feedless : ∀ text ∈ linesOf source, '\n' ∉ text :=
      fun text mem => (oneLine_of_mem_splitLines mem).feedless
    have first_mem : first ∈ (Outline.scan path (Line.ofTexts (linesOf source))).structs := by
      rw [found]
      exact List.mem_cons_self
    obtain ⟨above, text, inside, marks, -, -⟩ :=
      (Outline.marked_scan feedless path).1 first first_mem
    obtain ⟨marker, mem, begins⟩ := spelled text ((List.mem_tails _ _).mpr inside) marks
    have solid : ∀ marker ∈ Language.sorobanMarkers,
        '\n' ∉ marker.toList ∧ ' ' ∉ marker.toList ∧ marker.toList ≠ [] := by
      decide
    obtain ⟨feedless, spaceless, nonempty⟩ := solid marker mem
    have marked : contains marker.toList source.toList = true := by
      rw [contains_iff]
      exact infix_source_of_mask feedless spaceless nonempty begins inside
    exact scanner.resolveLanguage_of_detect? (Language.detect?_eq_soroban mem imported marked)
  · rcases Language.detect?_of_plain plain with told | untold
    · exact scanner.resolveLanguage_of_detect? told
    · rw [resolveLanguage, untold, imported]
      rfl

/-- Derived traits beside the marker do not make a contract Rust. -/
theorem resolveLanguage_derivedTraits :
    let source :=
      "use soroban_sdk::Env;\n#[derive(Clone)]\n#[contracttype]\npub struct A \x7b pub x: u64 \x7d"
    let contract : Contract := {
      name := "A"
      types := [⟨"A", [⟨"x", "u64", .pub, 4⟩], 4, "pub struct A \x7b pub x: u64 \x7d"⟩]
      impls := []
      source
      path := "a.rs" }
    contains Language.sorobanImport.toList source.toList = true ∧
      Contract.parse source "a.rs" = .ok contract ∧
      (∀ text ∈ (joinLines (mask (linesOf source))).tails,
        Attribute.Marks Outline.typeMarkers Struct.header text → Language.Spelled text) ∧
      contains "#[derive(".toList source.toList = true ∧
      (ofEngine Engine.default none).resolveLanguage source none = some .soroban := by
  intro source contract
  have imported : contains Language.sorobanImport.toList source.toList = true := by
    decide +kernel
  have parsed : Contract.parse source "a.rs" = .ok contract := by
    decide +kernel
  have spelled : ∀ text ∈ (joinLines (mask (linesOf source))).tails,
      Attribute.Marks Outline.typeMarkers Struct.header text → Language.Spelled text := by
    decide +kernel
  have derived : contains "#[derive(".toList source.toList = true := by
    decide +kernel
  exact ⟨imported, parsed, spelled, derived,
    resolveLanguage_of_parse (ofEngine Engine.default none) imported parsed (.inl spelled)⟩

/-- Derived traits make a contract Rust whose marker carries a path. -/
theorem resolveLanguage_pathMarker :
    let source := "use soroban_sdk::Env;\n#[derive(Clone)]\n#[soroban_sdk::contracttype]\n" ++
      "pub struct A \x7b pub x: u64 \x7d\n"
    contains Language.sorobanImport.toList source.toList = true ∧
      (Contract.parse source "a.rs").map (·.name) = .ok "A" ∧
      (ofEngine Engine.default none).resolveLanguage source none = some .rust ∧
      (ofEngine Engine.default none).scanContent source "a.rs" none =
        .error (.unsupported (some .rust) "a.rs") := by
  decide +kernel

end Scanner
end SorobanLint
