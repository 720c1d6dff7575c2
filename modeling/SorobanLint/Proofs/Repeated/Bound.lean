import SorobanLint.Proofs.Repeated.Report

/-!
# Reads that a `let` binds

An expression is not reported if a `let` binds its first lookup (`EndsWithLet`).  The binding is
looked for on the line of the lookup alone (`Place.endsWithLet_lineBefore_iff`), so the check is
silent for a binding without line feeds, and only then (`Contract.repeatedStorage_silent_iff`): a
read on the line below its `let` counts as not bound (`Contract.repeatedStorage_reported_bound`).
-/

namespace SorobanLint

open Text

/-! ## The text of a binding -/

/-- A `let` with a name, its type perhaps, and the sign of equality. -/
structure LetBinding (text : List Char) where
  /-- The blanks behind `let`. -/
  gap : List Char
  /-- `mut` and blanks, or nothing. -/
  mark : List Char
  /-- The name. -/
  name : List Char
  /-- The blanks behind the name. -/
  blanks : List Char
  /-- A colon and a type, or nothing. -/
  ascription : List Char
  /-- The blanks at the end. -/
  behind : List Char
  text_eq : text =
    "let".toList ++ (gap ++ (mark ++ (name ++ (blanks ++ (ascription ++ '=' :: behind)))))
  gap_blank : gap ≠ [] ∧ ∀ c ∈ gap, isBlank c = true
  mark_shape : mark = [] ∨
    ∃ blanks, mark = "mut".toList ++ blanks ∧ blanks ≠ [] ∧ ∀ c ∈ blanks, isBlank c = true
  name_word : name ≠ [] ∧ ∀ c ∈ name, isWord c = true
  blanks_blank : ∀ c ∈ blanks, isBlank c = true
  ascription_shape : ascription = [] ∨
    ∃ type, ascription = ':' :: type ∧ type ≠ [] ∧ ∀ c ∈ type, c ≠ '='
  behind_blank : ∀ c ∈ behind, isBlank c = true

/-- The text ends with the binding, and no word goes on where it begins. -/
structure EndsWithLet (text binding : List Char) : Prop where
  ends : ∃ front, text = front ++ binding ∧ ∀ c ∈ front.getLast?, isWord c = false
  binds : Nonempty (LetBinding binding)

variable {before s after text : List Char}

/-- A binding behind a character outside words ends the text. -/
theorem LetBinding.endsWithLet {front : List Char} (binds : LetBinding s)
    (outside : front.getLast?.any isWord = false) : EndsWithLet (front ++ s) s := by
  refine ⟨⟨front, rfl, fun c last => ?_⟩, ⟨binds⟩⟩
  rw [Option.mem_def.mp last] at outside
  exact outside

theorem reads_mark_iff :
    (Pattern.maybe (.seq "mut" .gap)).Reads before s after ↔ s = [] ∨
      ∃ blanks, s = "mut".toList ++ blanks ∧ blanks ≠ [] ∧ ∀ c ∈ blanks, isBlank c = true := by
  constructor
  · rintro (⟨-, blanks, rfl, rfl, reads⟩ | nothing)
    · exact .inr ⟨blanks, rfl, Pattern.reads_atLeastOne_iff.mp reads⟩
    · exact .inl nothing
  · rintro (rfl | ⟨blanks, rfl, blank⟩)
    · exact .inr rfl
    · exact .inl ⟨"mut".toList, blanks, rfl, rfl, Pattern.reads_atLeastOne_iff.mpr blank⟩

theorem reads_ascription_iff :
    (Pattern.maybe (.seq ":" (.atLeastOne (· ≠ '=')))).Reads before s after ↔
      s = [] ∨ ∃ type, s = ':' :: type ∧ type ≠ [] ∧ ∀ c ∈ type, c ≠ '=' := by
  constructor
  · rintro (⟨-, type, rfl, rfl, reads⟩ | nothing)
    · obtain ⟨nonempty, inside⟩ := Pattern.reads_atLeastOne_iff.mp reads
      exact .inr ⟨type, rfl, nonempty, by simpa using inside⟩
    · exact .inl nothing
  · rintro (rfl | ⟨type, rfl, nonempty, inside⟩)
    · exact .inr rfl
    · exact .inl ⟨[':'], type, rfl, rfl,
        Pattern.reads_atLeastOne_iff.mpr ⟨nonempty, by simpa using inside⟩⟩

/-- The pattern for bindings reads them at the end of a text. -/
theorem reads_letBinding_iff : letBinding.Reads before s after ↔
    before.head?.any isWord = false ∧ after = [] ∧ Nonempty (LetBinding s) := by
  have edge_iff (rest : List Char) :
      Place.atWordEdge ⟨before, "let".toList ++ rest⟩ = true ↔ before.head?.any isWord = false := by
    have letter : isWord 'l' = true := by decide
    rw [Place.atWordEdge]
    simp [letter]
  constructor
  · rintro ⟨_, _, rfl, ⟨rfl, edge⟩, _, _, rfl, rfl, gap, _, rfl, gap_reads, mark, _, rfl,
      mark_reads, name, _, rfl, name_reads, blanks, _, rfl, blanks_blank, ascription, _, rfl,
      ascription_reads, _, _, rfl, rfl, behind, _, rfl, behind_blank, _, _, rfl, ⟨rfl, nothing⟩,
      rfl⟩
    simp only [List.append_assoc] at edge
    rw [edge_iff] at edge
    exact ⟨edge, nothing, ⟨gap, mark, name, blanks, ascription, behind, by simp,
      Pattern.reads_atLeastOne_iff.mp gap_reads, reads_mark_iff.mp mark_reads,
      Pattern.reads_atLeastOne_iff.mp name_reads, blanks_blank,
      reads_ascription_iff.mp ascription_reads, behind_blank⟩⟩
  · rintro ⟨outside, rfl, ⟨gap, mark, name, blanks, ascription, behind, rfl, gap_blank, mark_shape,
      name_word, blanks_blank, ascription_shape, behind_blank⟩⟩
    let rest := gap ++ (mark ++ (name ++ (blanks ++ (ascription ++ '=' :: behind))))
    have edge := (edge_iff rest).mpr outside
    rw [← List.append_nil ("let".toList ++ rest)] at edge
    exact ⟨[], "let".toList ++ rest, rfl, ⟨rfl, edge⟩, "let".toList, rest, rfl, rfl, gap, _, rfl,
      Pattern.reads_atLeastOne_iff.mpr gap_blank, mark, _, rfl, reads_mark_iff.mpr mark_shape, name,
      _, rfl, Pattern.reads_atLeastOne_iff.mpr name_word, blanks, _, rfl, blanks_blank, ascription,
      _, rfl, reads_ascription_iff.mpr ascription_shape, ['='], _, rfl, rfl, behind, [], by simp,
      behind_blank, [], [], rfl, ⟨rfl, rfl⟩, rfl⟩

/-- The pattern for bindings occurs in a text that ends with one. -/
theorem occursIn_letBinding_iff :
    letBinding.occursIn text = true ↔ ∃ binding, EndsWithLet text binding := by
  rw [Pattern.occursIn_iff]
  constructor
  · rintro ⟨front, binding, after, rfl, reads⟩
    obtain ⟨outside, rfl, ⟨binds⟩⟩ := reads_letBinding_iff.mp reads
    rw [List.head?_reverse] at outside
    rw [List.append_nil]
    exact ⟨binding, binds.endsWithLet outside⟩
  · rintro ⟨binding, ⟨front, rfl, edge⟩, binds⟩
    exact ⟨front, binding, [], by simp,
      reads_letBinding_iff.mpr ⟨Pattern.outside_of_getLast? edge, rfl, binds⟩⟩

/-! ## The line of a place -/

namespace Place

/-- In front of the line of a place the text has ended a line, or has not begun. -/
theorem exists_lineBefore (place : Place) :
    ∃ above, place.textBefore = above ++ place.lineBefore ∧
      (∀ c ∈ above.getLast?, c = '\n') ∧ '\n' ∉ place.lineBefore := by
  refine ⟨(place.before.dropWhile (· ≠ '\n')).reverse, ?_, ?_, ?_⟩
  · rw [lineBefore, ← List.reverse_append, List.takeWhile_append_dropWhile]
    rfl
  · intro c last
    rw [List.getLast?_reverse] at last
    have stops := List.head?_dropWhile_not (· ≠ '\n') place.before
    rw [Option.mem_def.mp last] at stops
    simpa using stops
  · intro mem
    rw [lineBefore, List.mem_reverse] at mem
    simpa using List.mem_takeWhile_imp mem

/-- The line of a place ends with a binding exactly if the text in front of the place does, without
a line feed in the binding. -/
theorem endsWithLet_lineBefore_iff {place : Place} {binding : List Char} :
    EndsWithLet place.lineBefore binding ↔
      EndsWithLet place.textBefore binding ∧ '\n' ∉ binding := by
  obtain ⟨above, text_eq, above_last, feedless⟩ := place.exists_lineBefore
  have above_edge : ∀ c ∈ above.getLast?, isWord c = false := by
    intro c last
    rw [above_last c last]
    decide
  rw [text_eq]
  constructor
  · rintro ⟨⟨front, line_eq, edge⟩, binds⟩
    rw [line_eq] at feedless ⊢
    refine ⟨⟨⟨above ++ front, by rw [List.append_assoc], ?_⟩, binds⟩, ?_⟩
    · exact forall_getLast?_append above_edge edge
    · exact fun mem => feedless (List.mem_append_right front mem)
  · rintro ⟨⟨⟨front, whole, edge⟩, binds⟩, binding_feedless⟩
    rcases List.append_eq_append_iff.mp whole with ⟨x, rfl, line_eq⟩ | ⟨x, rfl, binding_eq⟩
    · refine ⟨⟨x, line_eq, ?_⟩, binds⟩
      intro c last
      refine edge c ?_
      rw [List.getLast?_append, Option.mem_def.mp last]
      rfl
    · cases last : x.getLast? with
      | none =>
          obtain rfl := List.getLast?_eq_none_iff.mp last
          exact ⟨⟨[], binding_eq.symm, nofun⟩, binds⟩
      | some c =>
          -- the binding would hold the line feed in front of the line
          have newline := above_last c (by rw [List.getLast?_append, last]; rfl)
          have mem : c ∈ binding := by
            rw [binding_eq]
            exact List.mem_append_left _ (List.mem_of_getLast? last)
          exact absurd (newline ▸ mem) binding_feedless

end Place

/-! ## What is said about an expression -/

namespace RepeatedStorage

variable {function : Function} {expression other : List Char}

theorem repetitionText_eq (function : Function) (expression : List Char) (count : Nat) :
    repetitionText function expression count =
      "Storage lookup `" ++ String.ofList expression ++ "` is evaluated " ++ count.repr ++
        " times in '" ++ function.name ++ "'" := rfl

theorem toList_repetitionText (function : Function) (expression : List Char) (count : Nat) :
    (repetitionText function expression count).toList =
      "Storage lookup `".toList ++ (expression ++ "` is evaluated ".toList ++
        Nat.toDigits 10 count) ++ (" times in '".toList ++ function.name.toList ++ "'".toList) := by
  rw [repetitionText_eq]
  simp only [String.toList_append, String.toList_ofList, Nat.toList_repr, List.append_assoc]

/-- Different expressions are told apart in what is said about them. -/
theorem eq_of_repetitionText {count others : Nat} (same : repetitionText function expression count =
    repetitionText function other others) : expression = other := by
  have texts_eq := congrArg String.toList same
  rw [toList_repetitionText, toList_repetitionText] at texts_eq
  have counted_eq := List.append_cancel_left (List.append_cancel_right texts_eq)
  -- read from its end, the text falls into the digits of the number and what no digit ends
  have reversed_eq := congrArg List.reverse counted_eq
  have digits (n : Nat) : ∀ c ∈ (Nat.toDigits 10 n).reverse, c.isDigit = true := fun c mem =>
    Nat.isDigit_of_mem_toDigits (by decide) (by decide) (List.mem_reverse.mp mem)
  simp only [List.reverse_append] at reversed_eq
  have space {rest : List Char} : ∀ c ∈ ("` is evaluated ".toList.reverse ++ rest).head?,
      c.isDigit = false := by
    rintro c ⟨⟩
    rfl
  obtain ⟨-, front_eq⟩ :=
    append_inj_of_forall (digits count) (digits others) space space reversed_eq
  exact List.reverse_injective (List.append_cancel_left front_eq)

theorem mem_functionFindings_iff {finding : Finding} :
    finding ∈ functionFindings function ↔ ∃ expression, Reported function expression finding := by
  simp only [← map_snd_reports, List.mem_map, Prod.exists, exists_eq_right, mem_reports_iff]

/-- An expression is not reported exactly if it is looked up only once, or a binding stands on the
line of its first lookup in front of that. -/
theorem not_reported_iff {first : Lookup} {later : List Lookup}
    (occurrences : Occurrences function.code expression (first :: later)) :
    (∀ finding, ¬Reported function expression finding) ↔
      later = [] ∨ ∃ binding, EndsWithLet first.start.textBefore binding ∧ '\n' ∉ binding := by
  simp only [← Place.endsWithLet_lineBefore_iff, ← occursIn_letBinding_iff]
  constructor
  · intro unreported
    by_contra neither
    obtain ⟨again, unbound⟩ := not_or.mp neither
    obtain ⟨second, more, rfl⟩ := List.exists_cons_of_ne_nil again
    exact unreported _ ⟨first, second, more, occurrences, Bool.eq_false_iff.mpr unbound, rfl⟩
  · rintro settled finding ⟨start, second, more, others, unbound, -⟩
    obtain ⟨rfl, rfl⟩ := List.cons.inj (occurrences.unique others)
    rcases settled with once | bound
    · contradiction
    · exact absurd (unbound.symm.trans bound) (by decide)

end RepeatedStorage

namespace Contract

open RepeatedStorage

variable {source path : String} {contract : Contract}

/-- No line is in two functions. -/
theorem LaidOut.eq_of_holds {texts : List (List Char)} (laid : contract.LaidOut texts)
    {function other : Function} (mem : function ∈ contract.functions)
    (other_mem : other ∈ contract.functions) {line : Int} (inside : function.extent.Holds line)
    (other_inside : other.extent.Holds line) : function = other := by
  by_contra different
  have : Std.Symm fun a b : Function => a.extent.Disjoint b.extent := ⟨fun _ _ => Or.symm⟩
  have disjoint : contract.functions.Pairwise fun a b => a.extent.Disjoint b.extent :=
    laid.functions_ordered.imp Or.inl
  have apart := disjoint.forall mem other_mem different
  obtain ⟨first_le, le_last⟩ := inside
  obtain ⟨other_first_le, other_le_last⟩ := other_inside
  simp only [Extent.Disjoint, Extent.Before] at apart
  omega

/-- Nothing is said about an expression on the lines of a function exactly if the function looks it
up only once, or binds its first lookup by a `let` that has no line feed up to the lookup. -/
theorem repeatedStorage_silent_iff (parsed : parse source path = .ok contract)
    {function : Function} (mem : function ∈ contract.functions) {expression : List Char}
    {first : Lookup} {later : List Lookup}
    (occurrences : Occurrences function.code expression (first :: later)) (severity : Severity)
    (enabled : Bool) :
    ∃ violations, (Check.repeatedStorage.rule severity enabled).apply contract = some violations ∧
      ((∀ violation ∈ violations, function.extent.Holds violation.line →
          ∀ count, violation.description ≠ repetitionText function expression count) ↔
        later = [] ∨ ∃ binding, EndsWithLet first.start.textBefore binding ∧ '\n' ∉ binding) := by
  obtain ⟨outline, start, rest, rfl, -, -, contract_eq⟩ := parse_eq_ok parsed
  have laid : contract.LaidOut (linesOf source) :=
    contract_eq ▸ laidOut_scan start.name source path
  have holds {other : Function} (other_mem : other ∈ contract.functions) {finding : Finding}
      (found : finding ∈ functionFindings other) : other.extent.Holds finding.line :=
    RepeatedStorage.holds_of_mem_functionFindings (aligned_of_parse parsed other_mem) found
  refine ⟨_, rfl, ?_⟩
  rw [← not_reported_iff occurrences]
  constructor
  · intro silent finding reported
    have found := mem_functionFindings_iff.mpr ⟨expression, reported⟩
    have listed : finding ∈ Check.repeatedStorage.findings contract :=
      Check.mem_findings_iff.mpr (.inr ⟨function, mem, found⟩)
    obtain ⟨_, _, more, _, _, rfl⟩ := reported
    exact silent _ (List.mem_map_of_mem listed) (holds mem found) _ rfl
  · intro unreported violation violation_mem inside count said
    obtain ⟨finding, listed, rfl⟩ := List.mem_map.mp violation_mem
    have found : ∃ other ∈ contract.functions, finding ∈ functionFindings other := by
      rcases Check.mem_findings_iff.mp listed with ⟨_, -, nothing⟩ | found
      · contradiction
      · exact found
    obtain ⟨other, other_mem, found⟩ := found
    obtain rfl := laid.eq_of_holds mem other_mem inside (holds other_mem found)
    obtain ⟨reported, is_reported⟩ := mem_functionFindings_iff.mp found
    have same : reported = expression := by
      obtain ⟨_, _, more, _, _, rfl⟩ := is_reported
      exact eq_of_repetitionText said
    exact unreported finding (same ▸ is_reported)

/-- A read is bound on its line, with its type; another one is not, and is reported. -/
theorem repeatedStorage_silent_bound :
    let front := "  fn f(&self) \x7b\n    "
    let binding := "let mut a : Map<u8> = "
    let behind := "self.m.get(k);\n    self . m.get( k ) + self.n.get() + self.n.get()\n  \x7d"
    let function : Function := ⟨"f", [], none, .priv, false, 5, front ++ binding ++ behind⟩
    let block := "impl A \x7b\n" ++ function.definition ++ "\n\x7d"
    let source := "#[contracttype]\nstruct A;\n#[contractimpl]\n" ++ block ++ "\n"
    let contract : Contract :=
      ⟨"A", [⟨"A", [], 2, "struct A;"⟩], [⟨"A", [function], 4, block⟩], source, "a.rs"⟩
    let expression := "self.m.get(k)".toList
    let rule := Check.repeatedStorage.rule .warning true
    parse source "a.rs" = .ok contract ∧ function ∈ contract.functions ∧
      (∃ first second, Occurrences function.code expression [first, second] ∧
        EndsWithLet first.start.textBefore binding.toList ∧ '\n' ∉ binding.toList) ∧
      (rule.apply contract).map (·.map (·.description)) =
        some [repetitionText function "self.n.get()".toList 2] ∧
      ∃ violations, rule.apply contract = some violations ∧
        ∀ violation ∈ violations, function.extent.Holds violation.line →
          ∀ count, violation.description ≠ repetitionText function expression count := by
  intro front binding behind function block source contract expression rule
  have parsed : parse source "a.rs" = .ok contract := by decide +kernel
  have mem : function ∈ contract.functions := List.mem_singleton.mpr rfl
  have said : (rule.apply contract).map (·.map (·.description)) =
      some [repetitionText function "self.n.get()".toList 2] := by decide +kernel
  have starts : (Order.sort (fun a b : Lookup => a.start.offset ≤ b.start.offset)
      ((Lookup.all function.code).filter (·.expression = expression))).map (·.start.textBefore) =
      [(front ++ binding).toList, (front ++ binding ++ "self.m.get(k);\n    ").toList] := by
    decide +kernel
  obtain ⟨first, second, occurrences, start_eq⟩ := Occurrences.exists_pair starts
  have binds : LetBinding binding.toList := {
    gap := [' ']
    mark := "mut ".toList
    name := ['a']
    blanks := [' ']
    ascription := ": Map<u8> ".toList
    behind := [' ']
    text_eq := by decide
    gap_blank := ⟨by decide, List.all_eq_true.mp (by decide)⟩
    mark_shape := .inr ⟨[' '], by decide, by decide, List.all_eq_true.mp (by decide)⟩
    name_word := ⟨by decide, List.all_eq_true.mp (by decide)⟩
    blanks_blank := List.all_eq_true.mp (by decide)
    ascription_shape :=
      .inr ⟨" Map<u8> ".toList, by decide, by decide, forall_mem_of_all (by decide)⟩
    behind_blank := List.all_eq_true.mp (by decide) }
  have outside : front.toList.getLast?.any isWord = false := by decide +kernel
  have ends : EndsWithLet first.start.textBefore binding.toList := by
    rw [start_eq, String.toList_append]
    exact binds.endsWithLet outside
  have feedless : '\n' ∉ binding.toList := by decide
  obtain ⟨violations, given, silent_iff⟩ :=
    repeatedStorage_silent_iff parsed mem occurrences .warning true
  exact ⟨parsed, mem, ⟨first, second, occurrences, ends, feedless⟩, said, violations, given,
    silent_iff.mpr (.inr ⟨_, ends, feedless⟩)⟩

/-- A read is bound on the line above, and the next read is reported. -/
theorem repeatedStorage_reported_bound :
    let front := "  fn f(&self) \x7b\n    "
    let binding := "let a =\n      "
    let behind := "self.m.get(k);\n    let b = self.m.get(k);\n  \x7d"
    let function : Function := ⟨"f", [], none, .priv, false, 5, front ++ binding ++ behind⟩
    let block := "impl A \x7b\n" ++ function.definition ++ "\n\x7d"
    let source := "#[contracttype]\nstruct A;\n#[contractimpl]\n" ++ block ++ "\n"
    let contract : Contract :=
      ⟨"A", [⟨"A", [], 2, "struct A;"⟩], [⟨"A", [function], 4, block⟩], source, "a.rs"⟩
    let expression := "self.m.get(k)".toList
    parse source "a.rs" = .ok contract ∧ function ∈ contract.functions ∧
      (∃ first second, Occurrences function.code expression [first, second] ∧
        EndsWithLet first.start.textBefore binding.toList) ∧
      ((Check.repeatedStorage.rule .warning true).apply contract).map
        (·.map fun violation => (violation.line, violation.description)) =
          some [(8, repetitionText function expression 2)] := by
  intro front binding behind function block source contract expression
  have parsed : parse source "a.rs" = .ok contract := by decide +kernel
  have starts : (Order.sort (fun a b : Lookup => a.start.offset ≤ b.start.offset)
      ((Lookup.all function.code).filter (·.expression = expression))).map (·.start.textBefore) =
      [(front ++ binding).toList,
        (front ++ binding ++ "self.m.get(k);\n    let b = ").toList] := by decide +kernel
  obtain ⟨first, second, occurrences, start_eq⟩ := Occurrences.exists_pair starts
  have binds : LetBinding binding.toList := {
    gap := [' ']
    mark := []
    name := ['a']
    blanks := [' ']
    ascription := []
    behind := "\n      ".toList
    text_eq := by decide
    gap_blank := ⟨by decide, List.all_eq_true.mp (by decide)⟩
    mark_shape := .inl rfl
    name_word := ⟨by decide, List.all_eq_true.mp (by decide)⟩
    blanks_blank := List.all_eq_true.mp (by decide)
    ascription_shape := .inl rfl
    behind_blank := List.all_eq_true.mp (by decide) }
  have outside : front.toList.getLast?.any isWord = false := by decide +kernel
  have ends : EndsWithLet first.start.textBefore binding.toList := by
    rw [start_eq, String.toList_append]
    exact binds.endsWithLet outside
  exact ⟨parsed, List.mem_singleton.mpr rfl, ⟨first, second, occurrences, ends⟩, by decide +kernel⟩

end Contract
end SorobanLint
