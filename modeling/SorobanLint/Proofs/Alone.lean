import SorobanLint.Proofs.Brackets.Onward
import SorobanLint.Proofs.Origin

/-!
# Functions read alone

A block reads its functions from the lines between its braces.  Whatever is found there is found
as well if the lines down to the end of the source may be searched (`Function.read_append`), so
reading a function alone from its source gives what the contract records of it
(`Contract.parse?_of_mem_functions`).
-/

namespace SorobanLint

open Text

namespace Function

theorem Signature.find_append {name : String} {line : Nat} {text : List Char}
    {signature : Signature} (found : find name line text = .ok signature) (more : List Char) :
    find name line (text ++ '\n' :: more) = .ok signature := by
  unfold find at found ⊢
  cases grouped : Bracket.firstGroup text with
  | wrongCloser closer offset => simp [grouped] at found
  | incomplete => simp [grouped] at found
  | found before params after =>
      have complete : Bracket.firstGroup text ≠ .incomplete := by simp [grouped]
      rw [grouped] at found
      dsimp only at found
      rw [Bracket.firstGroup_append complete, grouped]
      dsimp only
      split at found
      · contradiction
      next stop started =>
        rw [Bracket.bodyStart?_append started]
        exact found

/-- The opener of a signature stands in the text behind the name. -/
theorem Signature.offset_lt {name : String} {line start : Nat} {text : List Char}
    {signature : Signature} (found : find name line (text.drop start) = .ok signature) :
    start + signature.bodyOffset < text.length := by
  obtain ⟨-, front, back, front_length, behind⟩ := find_eq_ok found
  have lengths := congrArg List.length behind
  rw [List.length_drop, List.length_append, List.length_cons] at lengths
  omega

/-- A function whose end is found ends there if more lines follow. -/
theorem lastLine_append {codes : List (List Char)} {line offset last : Nat} {opener : Char}
    (nonempty : codes ≠ []) (within : offset ≤ (joinLines codes).length)
    (found : lastLine codes line offset opener = .ok last) (more : List (List Char)) :
    lastLine (codes ++ more) line offset opener = .ok last := by
  obtain ⟨rest, whole⟩ := joinLines_prefix nonempty more
  have lead_eq : (joinLines (codes ++ more)).take offset = (joinLines codes).take offset := by
    rw [← whole, List.take_append_of_le_length within]
  unfold lastLine at found ⊢
  rw [lead_eq]
  simp only at found ⊢
  generalize (Place.mk ((joinLines codes).take offset).reverse []) = lead at found ⊢
  split at found
  next braced =>
    rw [if_pos braced]
    split at found
    · contradiction
    next below closed =>
      obtain rfl := Except.ok.inj found
      cases dropped : codes.drop lead.line with
      | nil => simp [dropped, Bracket.closingLine?] at closed
      | cons first lines =>
          have within : lead.line ≤ codes.length := by
            by_contra beyond
            rw [List.drop_eq_nil_of_le (Nat.le_of_not_le beyond)] at dropped
            contradiction
          rw [dropped] at closed
          have onward := Bracket.closingLine?_append_right closed more
          rw [List.drop_append_of_le_length within, dropped]
          simp only [List.cons_append] at onward ⊢
          rw [onward]
  next braceless =>
    rw [if_neg braceless]
    exact found

/-- A function that is read from some lines is read from more lines, too. -/
theorem read_append {texts : List (List Char)} {index last : Nat} {target item : List Char}
    {line : Line} {later : List Line} {function : Function}
    (excerpt : Excerpt texts index (line :: later))
    (done : read target item line later = .ok (function, last)) (below : List Line) :
    read target item line (later ++ below) = .ok (function, last) := by
  obtain ⟨last_le, -⟩ := occupies_of_read excerpt done
  obtain ⟨found, matched, done⟩ := read_eq_ok done
  obtain ⟨signature, signed, closed, rfl⟩ := readFound_eq_ok done
  have nonempty : line.codeFrom item :: later.map (·.code) ≠ [] := List.cons_ne_nil _ _
  have opener_lt := Signature.offset_lt signed
  have codes_eq : line.codeFrom item :: (later ++ below).map (·.code) =
      (line.codeFrom item :: later.map (·.code)) ++ below.map (·.code) := by
    rw [List.map_append, List.cons_append]
  have raws_eq : Line.rawThrough (line :: (later ++ below)) last =
      Line.rawThrough (line :: later) last := by
    have within : last + 1 ≤ ((line :: later).map (·.raw)).length := by simpa using last_le
    rw [Line.rawThrough, ← List.cons_append, List.map_append,
      List.take_append_of_le_length within, Line.rawThrough]
  have signed_onward : Signature.find (String.ofList found.captured) line.number
      ((joinLines (line.codeFrom item :: (later ++ below).map (·.code))).drop
        found.stop.offset) = .ok signature := by
    rw [codes_eq]
    cases below with
    | nil => rwa [List.map_nil, List.append_nil]
    | cons next below =>
        have name_le : found.stop.offset ≤
            (joinLines (line.codeFrom item :: later.map (·.code))).length := by omega
        rw [List.map_cons, joinLines_append_cons nonempty,
          List.drop_append_of_le_length name_le]
        exact Signature.find_append signed _
  have closed_onward := lastLine_append nonempty (Nat.le_of_lt opener_lt) closed
    (below.map (·.code))
  rw [← codes_eq] at closed_onward
  rw [read, matched]
  simp only [readFound, signed_onward, closed_onward, raws_eq, bind, Except.bind]
  rfl

end Function

namespace Contract

variable {source path : String} {contract : Contract}

/-- Every recorded function is what is read alone at its line, for the target of its block. -/
theorem parse?_of_mem_functions (parsed : parse source path = .ok contract) {block : ImplBlock}
    (block_mem : block ∈ contract.impls) {function : Function}
    (mem : function ∈ block.functions) :
    ∃ index : Nat, function.line = index + 1 ∧
      Function.parse? (linesOf source) index block.target = some (.ok (some function)) := by
  obtain ⟨above, line, later, below, last, cut, header, read⟩ :=
    exists_read_of_mem_impls parsed block_mem mem
  have feedless : ∀ text ∈ linesOf source, '\n' ∉ text :=
    fun text mem => (oneLine_of_mem_splitLines mem).feedless
  have excerpt := Excerpt.of_ofTexts feedless cut
  have line_eq : function.extent.first = above.length + 1 := by
    rw [(Function.occupies_of_read excerpt read).2.1]
  have there : (Line.ofTexts (linesOf source)).drop above.length = line :: (later ++ below) := by
    rw [cut, List.append_assoc, List.drop_left, List.cons_append]
  refine ⟨above.length, line_eq, ?_⟩
  rw [Function.parse?, there]
  dsimp only
  rw [if_pos header, Function.read_append excerpt read below]
  rfl

/-- A constructor whose signature spans two lines; a function of another block stands below. -/
theorem parse?_of_mem_functions_constructor :
    let definition := "  #[a] pub fn f(
    a: u8) -> A {
  }"
    let text := "impl B for m::A<T> \x7b
" ++ definition ++ "
\x7d"
    let source := "#[contract]
struct A;
#[contractimpl]
" ++ text ++ "
impl C { fn g(); }"
    let function : Function :=
      ⟨"f", [⟨"a", "u8"⟩], some "A", .pub, true, 5, definition⟩
    let block : ImplBlock := ⟨"A", [function], 4, text⟩
    let contract : Contract := ⟨"A", [⟨"A", [], 2, "struct A;"⟩], [block], source, "a.rs"⟩
    parse source "a.rs" = .ok contract ∧ block ∈ contract.impls ∧ function ∈ block.functions ∧
      ∃ index : Nat, function.line = index + 1 ∧
        Function.parse? (linesOf source) index block.target = some (.ok (some function)) := by
  intro definition text source function block contract
  have parsed : parse source "a.rs" = .ok contract := by decide +kernel
  have block_mem : block ∈ contract.impls := List.mem_singleton.mpr rfl
  have mem : function ∈ block.functions := List.mem_singleton.mpr rfl
  exact ⟨parsed, block_mem, mem, parse?_of_mem_functions parsed block_mem mem⟩

end Contract
end SorobanLint
