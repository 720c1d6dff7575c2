import SorobanLint.Proofs.Ordered.Findings
import SorobanLint.Proofs.Reads

/-!
# Loops behind a comparison

A loop over a collection is reported unless a comparison on the collection's length stands in front
of it (`UnboundedLoop.Comparison`).  What stands in front of a loop stands in front of every later
one, so the reported loops over a collection are the first of its loops
(`UnboundedLoop.reportedOver_initial`).
-/

namespace SorobanLint

open Text

/-- What holds of an item whenever it holds of a later one holds of the first items. -/
theorem filter_prefix_of_pairwise {α : Type} {p : α → Bool} {items : List α}
    (earlier : items.Pairwise fun a b => p b = true → p a = true) : items.filter p <+: items := by
  induction items with
  | nil => exact List.prefix_rfl
  | cons a items ih =>
      obtain ⟨first, earlier⟩ := List.pairwise_cons.mp earlier
      cases holds : p a with
      | true =>
          rw [List.filter_cons_of_pos holds]
          exact (List.prefix_cons_inj a).mpr (ih earlier)
      | false =>
          have none_later : ∀ b ∈ items, ¬p b = true := by
            intro b mem later
            rw [first b mem later] at holds
            contradiction
          rw [List.filter_cons_of_neg (Bool.eq_false_iff.mp holds),
            List.filter_eq_nil_iff.mpr none_later]
          exact List.nil_prefix

namespace UnboundedLoop

variable {name before s after code above text : List Char} {n : Nat}

/-! ## Comparisons on a length -/

/-- The text of a call that gives the length of a collection. -/
inductive IsLengthCall (name : List Char) : List Char → Prop where
  | mk {beforeDot afterDot behindLen inside : List Char}
      (beforeDot_blank : ∀ c ∈ beforeDot, isBlank c = true)
      (afterDot_blank : ∀ c ∈ afterDot, isBlank c = true)
      (behindLen_blank : ∀ c ∈ behindLen, isBlank c = true)
      (inside_blank : ∀ c ∈ inside, isBlank c = true) :
      IsLengthCall name (name ++ (beforeDot ++ (".".toList ++ (afterDot ++ ("len".toList ++
        (behindLen ++ ("(".toList ++ (inside ++ ")".toList))))))))

/-- A call that gives the length of a collection, behind a text from which the collection's name is
told apart as a word. -/
structure LengthCallBehind (above name call : List Char) : Prop where
  isCall : IsLengthCall name call
  edge : (Place.mk above.reverse call).atWordEdge = true

/-- The signs of comparison. -/
def comparisonSigns : List (List Char) :=
  ["<=".toList, ">=".toList, "<".toList, ">".toList, "==".toList]

/-- The text behind `above` compares the length of a collection with what stands behind the call or
in front of it. -/
inductive ComparesLength (name above : List Char) : List Char → Prop where
  | callFirst {call gap sign : List Char} (call_behind : LengthCallBehind above name call)
      (gap_blank : ∀ c ∈ gap, isBlank c = true) (is_sign : sign ∈ comparisonSigns) :
      ComparesLength name above (call ++ (gap ++ sign))
  | signFirst {sign gap call : List Char} (is_sign : sign ∈ comparisonSigns)
      (gap_blank : ∀ c ∈ gap, isBlank c = true)
      (call_behind : LengthCallBehind (above ++ (sign ++ gap)) name call) :
      ComparesLength name above (sign ++ (gap ++ call))

/-- A comparison on the length of a collection in a text. -/
structure Comparison (name code : List Char) where
  /-- The text in front of the comparison. -/
  above : List Char
  /-- The call and the sign. -/
  text : List Char
  /-- The text behind the comparison. -/
  below : List Char
  code_eq : code = above ++ (text ++ below)
  compares : ComparesLength name above text

namespace Comparison

/-- The offset of the first character. -/
def start (comparison : Comparison name code) : Nat := comparison.above.length

/-- The offset behind the last character. -/
def stop (comparison : Comparison name code) : Nat :=
  (comparison.above ++ comparison.text).length

end Comparison

theorem IsLengthCall.ne_nil (isCall : IsLengthCall name s) : s ≠ [] := by
  cases isCall
  simp

theorem ComparesLength.ne_nil (compares : ComparesLength name above s) : s ≠ [] := by
  cases compares with
  | callFirst call_behind => exact List.append_ne_nil_of_left_ne_nil call_behind.isCall.ne_nil _
  | signFirst is_sign gap_blank call_behind =>
      refine List.append_ne_nil_of_right_ne_nil _ (List.append_ne_nil_of_right_ne_nil _ ?_)
      exact call_behind.isCall.ne_nil

theorem Comparison.start_lt_stop (comparison : Comparison name code) :
    comparison.start < comparison.stop := by
  rw [start, stop, List.length_append]
  exact Nat.lt_add_of_pos_right (List.length_pos_of_ne_nil comparison.compares.ne_nil)

/-! ## What the patterns read -/

/-- The pattern for a length reads the calls behind the edge of a word. -/
theorem reads_lengthOf_iff : (lengthOf name).Reads before s after ↔
    LengthCallBehind before.reverse name s := by
  -- the edge looks at no character behind the call
  have edge_eq (isCall : IsLengthCall name s) (after : List Char) :
      Place.atWordEdge ⟨before, s ++ after⟩ = Place.atWordEdge ⟨before.reverse.reverse, s⟩ := by
    rw [Place.atWordEdge, Place.atWordEdge, List.reverse_reverse,
      Pattern.head?_append_of_ne_nil isCall.ne_nil]
  constructor
  · rintro ⟨_, _, rfl, ⟨rfl, edge⟩, _, _, rfl, name_eq, beforeDot, _, rfl, beforeDot_blank, _, _,
      rfl, rfl, afterDot, _, rfl, afterDot_blank, _, _, rfl, rfl, behindLen, _, rfl,
      behindLen_blank, _, _, rfl, rfl, inside, _, rfl, inside_blank, _, _, rfl, rfl, rfl⟩
    obtain rfl := name_eq.symm
    simp only [List.nil_append, List.append_nil] at edge ⊢
    have isCall : IsLengthCall name _ :=
      .mk beforeDot_blank afterDot_blank behindLen_blank inside_blank
    exact ⟨isCall, (edge_eq isCall after).symm.trans edge⟩
  · rintro ⟨isCall, edge⟩
    rw [← edge_eq isCall after] at edge
    cases isCall with
    | @mk beforeDot afterDot behindLen inside beforeDot_blank afterDot_blank behindLen_blank
        inside_blank =>
      exact ⟨[], _, rfl, ⟨rfl, edge⟩, name, _, rfl, rfl, beforeDot, _, rfl, beforeDot_blank, _, _,
        rfl, rfl, afterDot, _, rfl, afterDot_blank, _, _, rfl, rfl, behindLen, _, rfl,
        behindLen_blank, _, _, rfl, rfl, inside, _, rfl, inside_blank, ")".toList, [], by simp, rfl,
        rfl⟩

theorem reads_comparison_iff : comparison.Reads before s after ↔ s ∈ comparisonSigns := by
  simp [comparison, comparisonSigns, Pattern.oneOf, Pattern.Reads]

/-- A comparison with the call in front of the sign. -/
theorem reads_callFirst_iff :
    (Pattern.all [lengthOf name, .spaces, comparison]).Reads before s after ↔
      ∃ call gap sign, s = call ++ (gap ++ sign) ∧ LengthCallBehind before.reverse name call ∧
        (∀ c ∈ gap, isBlank c = true) ∧ sign ∈ comparisonSigns := by
  constructor
  · rintro ⟨call, _, rfl, call_reads, gap, _, rfl, gap_blank, sign, _, rfl, sign_reads, rfl⟩
    rw [List.append_nil]
    exact ⟨call, gap, sign, rfl, reads_lengthOf_iff.mp call_reads, gap_blank,
      reads_comparison_iff.mp sign_reads⟩
  · rintro ⟨call, gap, sign, rfl, call_behind, gap_blank, is_sign⟩
    exact ⟨call, _, rfl, reads_lengthOf_iff.mpr call_behind, gap, _, rfl, gap_blank, sign, [],
      by simp, reads_comparison_iff.mpr is_sign, rfl⟩

/-- A comparison with the sign in front of the call. -/
theorem reads_signFirst_iff :
    (Pattern.all [comparison, .spaces, lengthOf name]).Reads before s after ↔
      ∃ sign gap call, s = sign ++ (gap ++ call) ∧ sign ∈ comparisonSigns ∧
        (∀ c ∈ gap, isBlank c = true) ∧
        LengthCallBehind (before.reverse ++ (sign ++ gap)) name call := by
  have behind_eq (sign gap : List Char) :
      (gap.reverse ++ (sign.reverse ++ before)).reverse = before.reverse ++ (sign ++ gap) := by
    simp
  constructor
  · rintro ⟨sign, _, rfl, sign_reads, gap, _, rfl, gap_blank, call, _, rfl, call_reads, rfl⟩
    rw [List.append_nil]
    refine ⟨sign, gap, call, rfl, reads_comparison_iff.mp sign_reads, gap_blank, ?_⟩
    rw [← behind_eq]
    exact reads_lengthOf_iff.mp call_reads
  · rintro ⟨sign, gap, call, rfl, is_sign, gap_blank, call_behind⟩
    rw [← behind_eq] at call_behind
    exact ⟨sign, _, rfl, reads_comparison_iff.mpr is_sign, gap, _, rfl, gap_blank, call, [],
      by simp, reads_lengthOf_iff.mpr call_behind, rfl⟩

/-- The length of a collection is capped in a text that holds a comparison on it. -/
theorem isCapped_iff : isCapped name code = true ↔
    ∃ above text below, code = above ++ (text ++ below) ∧ ComparesLength name above text := by
  rw [isCapped, Bool.or_eq_true, Pattern.occursIn_iff, Pattern.occursIn_iff]
  simp only [reads_callFirst_iff, reads_signFirst_iff, List.reverse_reverse]
  constructor
  · rintro (⟨above, text, below, code_eq, call, gap, sign, rfl, call_behind, gap_blank, is_sign⟩ |
      ⟨above, text, below, code_eq, sign, gap, call, rfl, is_sign, gap_blank, call_behind⟩)
    · exact ⟨above, _, below, code_eq, .callFirst call_behind gap_blank is_sign⟩
    · exact ⟨above, _, below, code_eq, .signFirst is_sign gap_blank call_behind⟩
  · rintro ⟨above, text, below, code_eq, compares⟩
    cases compares with
    | callFirst call_behind gap_blank is_sign =>
        exact .inl ⟨above, _, below, code_eq, _, _, _, rfl, call_behind, gap_blank, is_sign⟩
    | signFirst is_sign gap_blank call_behind =>
        exact .inr ⟨above, _, below, code_eq, _, _, _, rfl, is_sign, gap_blank, call_behind⟩

/-- In front of an offset the length is capped if a comparison in the whole text ends there. -/
theorem isCapped_take_iff : isCapped name (code.take n) = true ↔
    ∃ comparison : Comparison name code, comparison.stop ≤ n := by
  rw [isCapped_iff]
  constructor
  · rintro ⟨above, text, below, front_eq, compares⟩
    have code_eq : code = above ++ (text ++ (below ++ code.drop n)) := by
      rw [← List.append_assoc text, ← List.append_assoc above, ← front_eq, List.take_append_drop]
    refine ⟨⟨above, text, _, code_eq, compares⟩, ?_⟩
    have lengths := congrArg List.length front_eq
    rw [← List.append_assoc, List.length_append] at lengths
    have within := List.length_take_le n code
    change (above ++ text).length ≤ n
    omega
  · rintro ⟨⟨above, text, below, code_eq, compares⟩, within⟩
    refine ⟨above, text, below.take (n - (above ++ text).length), ?_, compares⟩
    rw [code_eq, ← List.append_assoc, List.take_append, List.take_of_length_le within,
      List.append_assoc]

/-! ## The loops over one collection -/

/-- The loops of a text over the collection of the given name. -/
def loopsOver (name code : List Char) : List Loop :=
  (Loop.all code).filter (·.name = name)

/-- The loops of a function over the collection of the given name that are to be reported. -/
def reportedOver (function : Function) (name : List Char) : List Loop :=
  (reported (unboundedNames function) function.code).filter (·.name = name)

variable {function : Function} {loop later : Loop}

theorem pairwise_loopsOver (name code : List Char) :
    (loopsOver name code).Pairwise fun a b => a.start.offset ≤ b.start.offset :=
  (Loop.pairwise_all code).filter _

theorem isCapped_textBefore_iff (mem : loop ∈ loopsOver name code) :
    isCapped name loop.start.textBefore = true ↔
      ∃ comparison : Comparison name code, comparison.stop ≤ loop.start.offset := by
  have inside := in_of_mem_all (List.mem_of_mem_filter mem)
  have front_eq : loop.start.textBefore = code.take loop.start.offset := by
    rw [← inside, Place.offset, ← List.length_reverse]
    exact List.take_left.symm
  rw [front_eq, isCapped_take_iff]

/-- Of the loops over a collection that the caller supplies, those are reported in front of which
its length is not compared. -/
theorem reportedOver_eq (supplied : name ∈ unboundedNames function) :
    reportedOver function name =
      (loopsOver name function.code).filter fun loop => !isCapped name loop.start.textBefore := by
  rw [reportedOver, reported, loopsOver, List.filter_filter, List.filter_filter]
  refine List.filter_congr fun loop _ => ?_
  by_cases same : loop.name = name
  · subst same
    simp [supplied]
  · simp [same]

theorem mem_reportedOver_iff (supplied : name ∈ unboundedNames function)
    (mem : loop ∈ loopsOver name function.code) :
    loop ∈ reportedOver function name ↔
      ∀ comparison : Comparison name function.code, loop.start.offset < comparison.stop := by
  rw [reportedOver_eq supplied, List.mem_filter, and_iff_right mem, Bool.not_eq_true',
    ← Bool.not_eq_true, isCapped_textBefore_iff mem, not_exists]
  exact forall_congr' fun comparison => Nat.not_le

/-- A comparison in front of a loop stands in front of every later one. -/
theorem mem_reportedOver_of_later (supplied : name ∈ unboundedNames function)
    (mem : loop ∈ loopsOver name function.code) (later_mem : later ∈ loopsOver name function.code)
    (le : loop.start.offset ≤ later.start.offset) (found : later ∈ reportedOver function name) :
    loop ∈ reportedOver function name := by
  rw [mem_reportedOver_iff supplied later_mem] at found
  rw [mem_reportedOver_iff supplied mem]
  exact fun comparison => le.trans_lt (found comparison)

theorem reportedOver_prefix (supplied : name ∈ unboundedNames function) :
    reportedOver function name <+: loopsOver name function.code := by
  have reported_iff {loop : Loop} (mem : loop ∈ loopsOver name function.code) :
      (!isCapped name loop.start.textBefore) = true ↔ loop ∈ reportedOver function name := by
    rw [reportedOver_eq supplied, List.mem_filter, and_iff_right mem]
  rw [reportedOver_eq supplied]
  refine filter_prefix_of_pairwise ((pairwise_loopsOver name function.code).imp_of_mem ?_)
  intro loop later mem later_mem le found
  rw [reported_iff later_mem] at found
  rw [reported_iff mem]
  exact mem_reportedOver_of_later supplied mem later_mem le found

/-- What is said about a collection is said on the lines of the reported loops over it. -/
theorem lines_functionFindings (supplied : name ∈ unboundedNames function) :
    ((functionFindings function).filter (·.variableName = String.ofList name)).map (·.line) =
      (reportedOver function name).map fun loop => function.lineAt loop.start := by
  obtain ⟨first, more, names_eq⟩ := List.exists_cons_of_ne_nil (List.ne_nil_of_mem supplied)
  have same_name (loop : Loop) :
      decide (String.ofList loop.name = String.ofList name) = decide (loop.name = name) := by
    rw [decide_eq_decide]
    exact String.ofList_inj
  rw [functionFindings, reportedOver, names_eq]
  dsimp only
  rw [List.filter_map, List.map_map]
  simp only [Function.comp_def, same_name]

/-- Of the loops over a collection that the caller supplies, in the order of the text, the first are
reported: those at which no comparison on the collection's length has ended.  So a loop is reported
if the first comparison stands behind it, and if one is not reported, no later one is. -/
theorem reportedOver_initial (supplied : name ∈ unboundedNames function) :
    let loops := loopsOver name function.code
    let reported := reportedOver function name
    ((functionFindings function).filter (·.variableName = String.ofList name)).map (·.line) =
        reported.map (fun loop => function.lineAt loop.start) ∧
      loops.Pairwise (·.start.offset ≤ ·.start.offset) ∧ reported <+: loops ∧
      (∀ loop ∈ loops, loop ∈ reported ↔
        ∀ comparison : Comparison name function.code, loop.start.offset < comparison.stop) ∧
      (∀ loop ∈ loops, loop ∉ reported →
        ∀ later ∈ loops, loop.start.offset ≤ later.start.offset → later ∉ reported) ∧
      (∀ loop ∈ loops,
        (∀ comparison : Comparison name function.code, loop.start.offset ≤ comparison.start) →
          loop ∈ reported) := by
  intro loops reported
  refine ⟨lines_functionFindings supplied, pairwise_loopsOver name _, reportedOver_prefix supplied,
    fun loop mem => mem_reportedOver_iff supplied mem, ?_, ?_⟩
  · intro loop mem unreported later later_mem le found
    exact unreported (mem_reportedOver_of_later supplied mem later_mem le found)
  · intro loop mem in_front
    rw [mem_reportedOver_iff supplied mem]
    exact fun comparison => (in_front comparison).trans_lt comparison.start_lt_stop

/-- Two loops stand in front of a comparison, and one behind it. -/
theorem reportedOver_initial_twoOfThree :
    let function : Function := {
      name := "f"
      params := [⟨"v", "Vec<u32>"⟩]
      returnType := none
      visibility := .priv
      isConstructor := false
      line := 4
      definition := "fn f(v: Vec<u32>) \x7b\nfor x in &v \x7b \x7d\nv.iter().fold(0, g);\n" ++
        "if 9 < v.len() \x7b \x7d\nfor i in 0..v.len() \x7b \x7d\n\x7d" }
    let name := "v".toList
    let loops := loopsOver name function.code
    let reported := reportedOver function name
    name ∈ unboundedNames function ∧ loops.map (·.start.offset) = [20, 36, 76] ∧
      ((functionFindings function).filter (·.variableName = "v")).map (·.line) = [5, 6] ∧
      reported <+: loops ∧
      ∀ loop ∈ loops, loop ∈ reported ↔
        ∀ comparison : Comparison name function.code, loop.start.offset < comparison.stop := by
  intro function name loops reported
  have supplied : name ∈ unboundedNames function := by decide +kernel
  obtain ⟨-, -, initial, reported_iff, -, -⟩ := reportedOver_initial supplied
  exact ⟨supplied, by decide +kernel, by decide +kernel, initial, reported_iff⟩

end UnboundedLoop
end SorobanLint
