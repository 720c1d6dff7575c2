import SorobanLint.Proofs.Marked

/-!
# Markers that are searched for

When the scan of a source fails, the source is searched for a marked struct as a whole, by a pattern
that knows four paths and no brackets inside attributes.  Where the markers are spelled like that,
the pattern finds every struct that the scan records (`Contract.reads_markedStruct`), so a broken
structure is reported as such (`Contract.structure_reported_of_recorded`).  A bracket inside an
attribute hides the struct from the search (`Contract.missingMarker_nestedBracket`).
-/

namespace SorobanLint

open Text

namespace Attribute

/-- The square brackets of a text. -/
def squares (text : List Char) : List Char :=
  text.filter fun c => c = '[' || c = ']'

/-- No square bracket opens inside another one. -/
def Flat (text : List Char) : Prop :=
  ¬['[', '['] <:+: squares text

instance (text : List Char) : Decidable (Flat text) :=
  inferInstanceAs (Decidable (¬_))

/-- The paths of the markers of structs that are searched for in a text. -/
def searchedPaths : List (List Char) :=
  ["contracttype", "contract", "soroban_sdk::contracttype", "soroban_sdk::contract"].map
    String.toList

/-- The attributes at the beginning of the text, with the blanks between and behind them. -/
def lead (text : List Char) : List Char :=
  text.take (text.length - (peel text).rest.length)

/-- The attribute that begins the text is spelled like the markers that are searched for, and
neither it nor an attribute behind it holds a bracket. -/
def Searched (text : List Char) : Prop :=
  ['#', '['] <+: text ∧ path (text.drop 2) ∈ searchedPaths ∧
    Flat (lead text)

instance (text : List Char) : Decidable (Searched text) :=
  inferInstanceAs (Decidable (_ ∧ _ ∧ _))

variable {a item text : List Char} {names : List (List Char)}

theorem lead_append_rest (text : List Char) : lead text ++ (peel text).rest = text := by
  have behind := List.suffix_iff_eq_drop.mp (rest_suffix none text).1
  calc lead text ++ (peel text).rest
      = lead text ++ text.drop (text.length - (peel text).rest.length) := congrArg _ behind
    _ = text := List.take_append_drop _ _

theorem Flat.of_append {s t : List Char} (flat : Flat (s ++ t)) : Flat t := by
  intro inside
  refine flat (inside.trans ?_)
  rw [squares, squares, List.filter_append]
  exact (List.suffix_append _ _).isInfix

theorem ne_of_inside {depth : Nat} : peelFrom (some depth) item ≠ ⟨names, item, true⟩ := by
  intro peeled
  cases item with
  | nil => exact absurd (congrArg Peeled.closed peeled) Bool.false_ne_true
  | cons c item =>
      have shorter : (peelFrom (some depth) (c :: item)).rest <:+ item := by
        rw [peelFrom]
        split
        · exact (rest_suffix _ item).1
        · split
          · exact (rest_suffix _ item).1
          · exact (rest_suffix _ item).1
      rw [peeled] at shorter
      have lengths := shorter.length_le
      simp at lengths

/-- An attribute without brackets inside ends at the first closing bracket. -/
theorem exists_closing (peeled : peelFrom (some 1) (a ++ item) = ⟨names, item, true⟩)
    (flat : Flat ('[' :: a)) :
    ∃ x more, a = x ++ ']' :: more ∧ (∀ c ∈ x, c ≠ ']') ∧
      peelFrom none (more ++ item) = ⟨names, item, true⟩ := by
  induction a with
  | nil => exact absurd peeled ne_of_inside
  | cons c a ih =>
      rw [List.cons_append, peelFrom] at peeled
      by_cases opener : c = '['
      · subst opener
        exact absurd (List.prefix_append ['[', '['] (squares a)).isInfix flat
      · rw [if_neg opener] at peeled
        by_cases closer : c = ']'
        · subst closer
          exact ⟨[], a, rfl, List.forall_mem_nil _, peeled⟩
        · rw [if_neg closer] at peeled
          have flat_rest : Flat ('[' :: a) := by
            simpa [Flat, squares, opener, closer] using flat
          obtain ⟨x, more, rfl, outside, peeled⟩ := ih peeled flat_rest
          exact ⟨c :: x, more, rfl, List.forall_mem_cons.mpr ⟨closer, outside⟩, peeled⟩

/-- The text between the brackets of an attribute, and what stands behind it. -/
theorem exists_brackets (peeled : peelFrom (some 0) (a ++ item) = ⟨names, item, true⟩)
    (opener : a ++ item = '[' :: text) (flat : Flat a) :
    ∃ x more, a = '[' :: (x ++ ']' :: more) ∧ (∀ c ∈ x, c ≠ ']') ∧
      peelFrom none (more ++ item) = ⟨names, item, true⟩ := by
  cases a with
  | nil => exact absurd peeled ne_of_inside
  | cons c a =>
      obtain ⟨rfl, -⟩ := List.cons.inj opener
      rw [List.cons_append, peelFrom, if_pos rfl] at peeled
      obtain ⟨x, more, rfl, closing⟩ := exists_closing peeled flat
      exact ⟨x, more, rfl, closing⟩

/-- An attribute without brackets inside that begins a text, and what stands behind it. -/
theorem exists_attribute (begun : inside? (a ++ item) = some text)
    (peeled : peel (a ++ item) = ⟨names, item, true⟩) (flat : Flat a) :
    ∃ mark x more names, a = '#' :: (mark ++ '[' :: (x ++ ']' :: more)) ∧
      (mark = [] ∨ mark = ['!']) ∧ (∀ c ∈ x, c ≠ ']') ∧
      peel (more ++ item) = ⟨names, item, true⟩ := by
  obtain ⟨rest, whole, others, tail_eq⟩ : ∃ rest, a ++ item = '#' :: rest ∧
      ∃ others, peelFrom (some 0) rest = ⟨others, item, true⟩ := by
    obtain ⟨rest, whole⟩ : ∃ rest, a ++ item = '#' :: rest := by
      rcases eq_of_inside? begun with whole | whole <;> exact ⟨_, whole⟩
    rw [whole] at begun
    rw [whole, peel, peelFrom, if_neg (by decide)] at peeled
    simp only [begun] at peeled
    obtain ⟨-, rest_eq, closed_eq⟩ := Peeled.mk.inj peeled
    exact ⟨rest, whole, _, congrArg₂ (Peeled.mk (peelFrom (some 0) rest).names) rest_eq closed_eq⟩
  cases a with
  | nil =>
      have lengths := ((rest_suffix (some 0) rest).1).length_le
      rw [tail_eq, ← List.nil_append item, whole] at lengths
      simp at lengths
  | cons c a =>
      obtain ⟨rfl, rfl⟩ := List.cons.inj whole
      have flat_rest : Flat a := Flat.of_append (s := ['#']) flat
      rcases eq_of_inside? begun with text_eq | text_eq
      · obtain ⟨-, opener⟩ := List.cons.inj text_eq
        obtain ⟨x, more, rfl, outside, peeled⟩ := exists_brackets tail_eq opener flat_rest
        exact ⟨[], x, more, _, rfl, .inl rfl, outside, peeled⟩
      · obtain ⟨-, mark_eq⟩ := List.cons.inj text_eq
        cases a with
        | nil => exact absurd tail_eq ne_of_inside
        | cons d a =>
            obtain ⟨rfl, opener⟩ := List.cons.inj mark_eq
            rw [List.append_eq, List.cons_append, peelFrom, if_neg (by decide),
              if_neg (by decide)] at tail_eq
            have flat_rest : Flat a := Flat.of_append (s := ['!']) flat_rest
            obtain ⟨x, more, rfl, outside, peeled⟩ := exists_brackets tail_eq opener flat_rest
            exact ⟨['!'], x, more, _, rfl, .inr rfl, outside, peeled⟩

end Attribute

namespace Contract

open Attribute Pattern

/-- An attribute between the marker and the header. -/
def furtherAttribute : Pattern :=
  .all [.spaces, "#", .maybe "!", "[", .many (· ≠ ']'), "]"]

theorem reads_furtherAttribute {lead mark x : List Char} (blank : ∀ c ∈ lead, isBlank c = true)
    (mark_eq : mark = [] ∨ mark = ['!']) (outside : ∀ c ∈ x, c ≠ ']') (before after : List Char) :
    furtherAttribute.Reads before (lead ++ '#' :: (mark ++ '[' :: (x ++ [']']))) after := by
  refine ⟨lead, _, rfl, blank, ['#'], _, rfl, rfl, mark, _, rfl, mark_eq.symm, ['['], _, rfl, rfl,
    x, [']'], rfl, ?_, [']'], [], rfl, rfl, rfl⟩
  intro c mem
  exact decide_eq_true (outside c mem)

/-- Attributes without brackets inside, and the blanks behind them, are read one by one. -/
theorem repeated_furtherAttribute {names : List (List Char)} {a item : List Char}
    (peeled : peel (a ++ item) = ⟨names, item, true⟩) (flat : Flat a) (before : List Char) :
    ∃ attributes blanks, a = attributes ++ blanks ∧ (∀ c ∈ blanks, isBlank c = true) ∧
      Repeated furtherAttribute.Reads before attributes (blanks ++ item) := by
  induction short : a.length using Nat.strong_induction_on generalizing a names before with
  | _ n ih =>
    have lead_blank : ∀ c ∈ a.takeWhile isBlank, isBlank c = true :=
      fun c mem => List.mem_takeWhile_imp mem
    have a_eq : a = a.takeWhile isBlank ++ trimStart a := List.takeWhile_append_dropWhile.symm
    cases trimmed : trimStart a with
    | nil =>
        rw [trimmed, List.append_nil] at a_eq
        refine ⟨[], a, rfl, ?_, .nil⟩
        rw [a_eq]
        exact lead_blank
    | cons c rest =>
        have solid : isBlank c = false := by
          have stopped := List.head?_dropWhile_not isBlank a
          rw [← trimStart, trimmed] at stopped
          simpa using stopped
        rw [trimmed] at a_eq
        generalize a.takeWhile isBlank = lead at lead_blank a_eq
        subst a_eq
        rw [List.append_assoc, peel, peelFrom_append_blank lead_blank, ← peel] at peeled
        obtain ⟨text, begun⟩ : ∃ text, inside? (c :: rest ++ item) = some text := by
          refine Option.ne_none_iff_exists'.mp fun nothing => ?_
          rw [List.cons_append] at nothing peeled
          rw [peel, peelFrom, if_neg (by simp [solid])] at peeled
          simp only [nothing] at peeled
          have lengths := congrArg (fun peeled => peeled.rest.length) peeled
          simp only [List.length_cons, List.length_append] at lengths
          omega
        obtain ⟨mark, x, more, names, rest_eq, mark_eq, outside, peeled⟩ :=
          exists_attribute begun peeled flat.of_append
        rw [rest_eq] at short flat ⊢
        have shorter : more.length < n := by
          rw [← short]
          simp only [List.length_append, List.length_cons]
          omega
        have flat_more : Flat more :=
          Flat.of_append (s := lead ++ '#' :: (mark ++ '[' :: (x ++ [']']))) (by simpa using flat)
        obtain ⟨attributes, blanks, rfl, blank, repeated⟩ :=
          ih more.length shorter peeled flat_more
            ((lead ++ '#' :: (mark ++ '[' :: (x ++ [']']))).reverse ++ before) rfl
        refine ⟨lead ++ '#' :: (mark ++ '[' :: (x ++ [']'])) ++ attributes, blanks, ?_, blank,
          .cons ?_ (reads_furtherAttribute lead_blank mark_eq outside _ _) repeated⟩
        · simp
        · simp

/-- What begins with the name of a marker goes on with it, or with the path in front of it. -/
theorem reads_path {path : List Char} (searched : path ∈ searchedPaths) :
    ∃ sdk name, path = sdk ++ name ∧ (∃ front last, name = front ++ [last] ∧ isWord last = true) ∧
      ∀ before between after,
        (Pattern.maybe (.all ["soroban_sdk", .spaces, "::", .spaces])).Reads before sdk between ∧
        (Pattern.oneOf ["contracttype", "contract"]).Reads (sdk.reverse ++ before) name after := by
  have sdk_reads (before after : List Char) :
      (Pattern.maybe (.all ["soroban_sdk", .spaces, "::", .spaces])).Reads before
        "soroban_sdk::".toList after :=
    .inl ⟨"soroban_sdk".toList, _, rfl, rfl, [], _, rfl, List.forall_mem_nil _, "::".toList, _, rfl,
      rfl, [], [], rfl, List.forall_mem_nil _, rfl⟩
  have type_ends : ∃ front last, "contracttype".toList = front ++ [last] ∧ isWord last = true :=
    ⟨"contracttyp".toList, 'e', rfl, by decide⟩
  have contract_ends : ∃ front last, "contract".toList = front ++ [last] ∧ isWord last = true :=
    ⟨"contrac".toList, 't', rfl, by decide⟩
  simp only [searchedPaths, List.map_cons, List.map_nil, List.mem_cons, List.not_mem_nil,
    or_false] at searched
  rcases searched with rfl | rfl | rfl | rfl
  · exact ⟨[], _, rfl, type_ends, fun _ _ _ => ⟨.inr rfl, .inl rfl⟩⟩
  · exact ⟨[], _, rfl, contract_ends, fun _ _ _ => ⟨.inr rfl, .inr rfl⟩⟩
  · exact ⟨"soroban_sdk::".toList, "contracttype".toList, rfl, type_ends,
      fun _ _ _ => ⟨sdk_reads _ _, .inl rfl⟩⟩
  · exact ⟨"soroban_sdk::".toList, "contract".toList, rfl, contract_ends,
      fun _ _ _ => ⟨sdk_reads _ _, .inr rfl⟩⟩

/-- The header of a struct is read up to its keyword, behind which no word goes on. -/
theorem reads_keyword {item : List Char} (headed : Struct.header.isHeadOf item = true) :
    ∃ mark after, item = mark ++ ("struct".toList ++ after) ∧
      (∀ before after, (Pattern.maybe Visibility.mark).Reads before mark after) ∧
      after.head?.any isWord = false := by
  rw [Pattern.isHeadOf_iff] at headed
  obtain ⟨s, after, rfl, mark, behind, rfl, mark_reads, keyword, behind, rfl, rfl, gap, behind, rfl,
    ⟨first, more, rfl, ⟨c, rfl, blank⟩, -⟩, -⟩ := headed
  refine ⟨mark, [c] ++ more ++ behind ++ after, by simp, ?_, ?_⟩
  · exact fun _ _ => mark_reads.elsewhere rfl _ _
  · exact isWord_of_isBlank blank

/-- The marker, the attributes behind it and the header of a struct are read one by one. -/
theorem reads_markedStruct {names : List (List Char)} {a item inside : List Char}
    (peeled : peel (a ++ item) = ⟨names, item, true⟩) (begun : a ++ item = '#' :: '[' :: inside)
    (spelled : Attribute.path inside ∈ searchedPaths) (flat : Flat a)
    (headed : Struct.header.isHeadOf item = true) (before : List Char) :
    ∃ s after, a ++ item = s ++ after ∧ markedStruct.Reads before s after := by
  have begun_inside : inside? (a ++ item) = some inside := by
    rw [begun]
    rfl
  obtain ⟨mark, x, more, others, rfl, mark_eq, outside, more_peeled⟩ :=
    exists_attribute begun_inside peeled flat
  have flat_more : Flat more :=
    Flat.of_append (s := '#' :: (mark ++ '[' :: (x ++ [']']))) (by simpa using flat)
  obtain rfl : mark = [] := by
    rcases mark_eq with rfl | rfl
    · rfl
    · simp at begun
  obtain rfl : inside = x ++ ']' :: (more ++ item) := by simpa using begun.symm
  rw [path_append_bracket] at spelled
  obtain ⟨sdk, name, path_eq, ⟨front, last, rfl, last_word⟩, path_reads⟩ := reads_path spelled
  obtain ⟨vis, after, rfl, vis_reads, no_word⟩ := reads_keyword headed
  -- The inside of the marker: blanks, the path, and arguments behind it.
  have gap_blank : ∀ c ∈ x.takeWhile isBlank, isBlank c = true :=
    fun c mem => List.mem_takeWhile_imp mem
  have x_eq : x = x.takeWhile isBlank ++ (sdk ++ ((front ++ [last]) ++
      (trimStart x).dropWhile fun c => isWord c || c = ':')) := by
    rw [← List.append_assoc sdk, ← path_eq, Attribute.path, List.takeWhile_append_dropWhile]
    exact List.takeWhile_append_dropWhile.symm
  have args_stop := List.head?_dropWhile_not (fun c => isWord c || decide (c = ':')) (trimStart x)
  generalize (trimStart x).dropWhile (fun c => isWord c || c = ':') = args at x_eq args_stop
  generalize x.takeWhile isBlank = gap at x_eq gap_blank
  subst x_eq
  have args_inside : ∀ c ∈ args, (c ≠ ']') := fun c mem => outside c (by simp [mem])
  have no_word_behind (rest more : List Char) :
      (args ++ ([']'] ++ rest) ++ more).head?.any isWord = false := by
    have bracket : isWord ']' = false := by decide
    cases args with
    | nil => exact bracket
    | cons c args =>
        have stops : (isWord c || decide (c = ':')) = false := by simpa using args_stop
        exact (Bool.or_eq_false_iff.mp stops).1
  obtain ⟨attributes, blanks, rfl, blanks_blank, repeated⟩ :=
    repeated_furtherAttribute more_peeled flat_more
      ([']'].reverse ++ (args.reverse ++ ([].reverse ++ ((front ++ [last]).reverse ++
        (sdk.reverse ++ (gap.reverse ++ (['#', '['].reverse ++ before)))))))
  refine ⟨['#', '['] ++ (gap ++ (sdk ++ ((front ++ [last]) ++ ([] ++ (args ++ ([']'] ++
    (attributes ++ (blanks ++ (vis ++ ("struct".toList ++ ([] ++ []))))))))))), after, ?_, ?_⟩
  · simp
  · have marked := path_reads (gap.reverse ++ (['#', '['].reverse ++ before))
    refine .all_cons rfl (.all_cons gap_blank (.all_cons (marked _ []).1 (.all_cons (marked [] _).2
      (.all_cons ?_ (.all_cons ?_ (.all_cons rfl (.all_cons ?_ (.all_cons blanks_blank
        (.all_cons (vis_reads _ _) (.all_cons rfl (.all_cons ?_ rfl)))))))))))
    · rw [List.reverse_append]
      exact reads_edge last_word _ (no_word_behind _ _)
    · exact fun c mem => decide_eq_true (args_inside c mem)
    · show Repeated furtherAttribute.Reads _ _ _
      simpa using repeated
    · exact reads_edge (c := 't') (by decide) _ no_word

theorem occursIn_markedStruct {whole text : List Char} (inside : text <:+ whole)
    (searched : Searched text) (headed : Struct.header.isHeadOf (peel text).rest = true) :
    markedStruct.occursIn whole = true := by
  obtain ⟨⟨behind, begun⟩, spelled, flat⟩ := searched
  have closed : (peel text).closed = true := by
    by_contra unclosed
    have nothing : (peel text).rest = [] := rest_peelFrom (Bool.not_eq_true _ ▸ unclosed)
    rw [nothing] at headed
    exact absurd headed (by decide)
  have peeled :
      peel (lead text ++ (peel text).rest) = ⟨(peel text).names, (peel text).rest, true⟩ := by
    rw [lead_append_rest, ← closed]
  have begun_lead : lead text ++ (peel text).rest = '#' :: '[' :: behind := by
    rw [lead_append_rest, ← begun]
    rfl
  rw [← begun] at spelled
  obtain ⟨front, rfl⟩ := inside
  obtain ⟨s, after, text_eq, reads⟩ :=
    reads_markedStruct peeled begun_lead spelled flat headed front.reverse
  rw [lead_append_rest] at text_eq
  rw [Pattern.occursIn_iff]
  exact ⟨front, s, after, by rw [text_eq], reads⟩

variable {source path : String}

/-- A source in which the scan records a struct is never rejected for want of a marker, and what is
wrong with its structure is reported, if the attributes that mark its structs are spelled like those
that are searched for. -/
theorem structure_reported_of_recorded
    (recorded : (Outline.scan path (Line.ofTexts (linesOf source))).structs ≠ [])
    (searched : ∀ text ∈ (joinLines (mask (linesOf source))).tails,
      Marks Outline.typeMarkers Struct.header text → Searched text) :
    markedStruct.occursIn (joinLines (mask (linesOf source))) = true ∧
    (∀ reason, parse source path ≠ .error (.missingMarker reason)) ∧
    ∀ fault, (Outline.scan path (Line.ofTexts (linesOf source))).fault = some (.unfinished fault) →
      parse source path = .error (.invalidStructure fault.message) := by
  have feedless : ∀ text ∈ linesOf source, '\n' ∉ text :=
    fun text mem => (oneLine_of_mem_splitLines mem).feedless
  obtain ⟨struct, struct_mem⟩ := List.exists_mem_of_ne_nil _ recorded
  obtain ⟨above, text, inside, marks, -, -⟩ :=
    (Outline.marked_scan feedless path).1 struct struct_mem
  have found : markedStruct.occursIn (joinLines (mask (linesOf source))) = true :=
    occursIn_markedStruct inside (searched text ((List.mem_tails _ _).mpr inside) marks) marks.2
  refine ⟨found, ?_, ?_⟩
  · intro reason rejected
    simp only [parse, Line.map_code_ofTexts, found, if_true] at rejected
    split at rejected
    · cases rejected
    · cases rejected
    · split at rejected
      next nothing => exact recorded nothing
      next => contradiction
  · intro fault unfinished
    simp only [parse, Line.map_code_ofTexts, found, unfinished, if_true]

/-- An attribute stands between the marker and the struct, and a module is not closed. -/
theorem structure_reported_openModule :
    let source := "#[contracttype]\n#[derive(Clone)]\npub struct A \x7b pub x: u64 \x7d\nmod m \x7b"
    (Outline.scan "a.rs" (Line.ofTexts (linesOf source))).structs ≠ [] ∧
      (∀ text ∈ (joinLines (mask (linesOf source))).tails,
        Marks Outline.typeMarkers Struct.header text → Searched text) ∧
      parse source "a.rs" =
        .error (.invalidStructure "1 unclosed brace(s) at end of input in a.rs") := by
  intro source
  have recorded : (Outline.scan "a.rs" (Line.ofTexts (linesOf source))).structs ≠ [] := by
    decide +kernel
  have searched : ∀ text ∈ (joinLines (mask (linesOf source))).tails,
      Marks Outline.typeMarkers Struct.header text → Searched text := by
    decide +kernel
  have unfinished : (Outline.scan "a.rs" (Line.ofTexts (linesOf source))).fault =
      some (.unfinished (.openBraces 1 "a.rs")) := by
    decide +kernel
  exact ⟨recorded, searched,
    (structure_reported_of_recorded recorded searched).2.2 (.openBraces 1 "a.rs") unfinished⟩

/-- A bracket inside an attribute between the marker and the struct hides the marker from the
search, but not from the scan. -/
theorem missingMarker_nestedBracket :
    let source := "#[contracttype]\n#[doc = concat![\"a\", \"b\"]]\n" ++
      "pub struct A \x7b pub x: u64 \x7d\nmod m \x7b\n"
    (Outline.scan "a.rs" (Line.ofTexts (linesOf source))).structs.map (·.name) = ["A"] ∧
      parse source "a.rs" = .error (noMarker "a.rs") := by
  decide +kernel

end Contract
end SorobanLint
