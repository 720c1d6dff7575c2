import SorobanLint.Proofs.Masked.State
import SorobanLint.Proofs.Origin
import SorobanLint.Rule.Basic

/-!
# The code of a function

A rule masks the text of a function by itself, from plain code on, whereas the parser has masked
the whole source.  Both give the same code unless a block comment is open where the first line of
the function begins (`Contract.code_eq_of_parse`); what the comment leaves of that line is then
taken for code (`Contract.code_ne_behind_comment`).
-/

namespace SorobanLint

open Text

/-! ## Where a character stands -/

/-- A character of joined lines stands on the line that the line feeds before it lead to. -/
theorem Text.mem_line_of_joinLines {lines : List (List Char)} {front back : List Char} {c : Char}
    (feedless : ∀ line ∈ lines, '\n' ∉ line) (whole : joinLines lines = front ++ c :: back)
    (other : c ≠ '\n') : ∃ line, lines[lineFeeds front]? = some line ∧ c ∈ line := by
  obtain ⟨above, left, right, below, rfl, rfl, -⟩ :=
    cut_joinLines_token (show joinLines lines = front ++ ([c] ++ back) from whole)
      (List.cons_ne_nil c []) (by simpa using other.symm)
  rw [List.forall_mem_append, List.forall_mem_cons, List.mem_append, not_or] at feedless
  have above_feeds : lineFeeds (terminated above ++ left) = above.length := by
    rw [lineFeeds_append, lineFeeds_terminated feedless.1, lineFeeds_eq_zero feedless.2.1.1,
      Nat.add_zero]
  exact ⟨left ++ c :: right, by simp [above_feeds], by simp⟩

/-! ## The last line of a function -/

namespace Bracket

theorem mem_of_depthAfter?_eq_none {depth : Int} {text : List Char}
    (closed : depthAfter? depth text = none) : '}' ∈ text := by
  induction text generalizing depth with
  | nil => contradiction
  | cons c rest ih =>
      rw [depthAfter?] at closed
      split at closed
      · exact List.mem_cons_of_mem c (ih closed)
      · split at closed
        next closer =>
          rw [closer]
          exact List.mem_cons_self
        next => exact List.mem_cons_of_mem c (ih closed)

theorem mem_of_closingLine? {depth : Int} {lines : List (List Char)} {last : Nat}
    (closed : closingLine? depth lines = some last) :
    ∃ line, lines[last]? = some line ∧ '}' ∈ line := by
  induction lines generalizing depth last with
  | nil => contradiction
  | cons line rest ih =>
      rw [closingLine?] at closed
      split at closed
      next ends =>
        obtain rfl := Option.some.inj closed
        exact ⟨line, rfl, mem_of_depthAfter?_eq_none ends⟩
      next =>
        obtain ⟨below, found, rfl⟩ := Option.map_eq_some_iff.mp closed
        exact ih found

end Bracket

namespace Function

/-- A function ends on a line that is not empty. -/
theorem ne_nil_of_lastLine {codes : List (List Char)} {front back : List Char}
    {line last : Nat} {opener : Char} (feedless : ∀ code ∈ codes, '\n' ∉ code)
    (whole : joinLines codes = front ++ opener :: back) (other : opener ≠ '\n')
    (found : lastLine codes line front.length opener = .ok last) :
    ∃ code, codes[last]? = some code ∧ code ≠ [] := by
  have lead_eq : lineFeeds ((joinLines codes).take front.length).reverse = lineFeeds front := by
    rw [whole, List.take_left, lineFeeds, List.count_reverse, lineFeeds]
  unfold lastLine at found
  simp only [Place.line, lead_eq] at found
  split at found
  next =>
    split at found
    · contradiction
    next below closed =>
      obtain rfl := Except.ok.inj found
      obtain ⟨closing, closing_eq, mem⟩ := Bracket.mem_of_closingLine? closed
      split at closing_eq
      next => contradiction
      next first rest dropped =>
        rw [← List.getElem?_drop, dropped]
        cases below with
        | zero =>
            obtain rfl := Option.some.inj closing_eq
            exact ⟨first, rfl, List.ne_nil_of_mem (List.mem_of_mem_drop mem)⟩
        | succ below => exact ⟨closing, closing_eq, List.ne_nil_of_mem mem⟩
  next =>
    obtain rfl := Except.ok.inj found
    obtain ⟨code, code_eq, mem⟩ := mem_line_of_joinLines feedless whole other
    exact ⟨code, code_eq, List.ne_nil_of_mem mem⟩

end Function

/-! ## Code -/

theorem Mask.linesFrom_take (state : MaskState) (lines : List (List Char)) (n : Nat) :
    linesFrom state (lines.take n) = (linesFrom state lines).take n := by
  induction lines generalizing state n with
  | nil => simp [linesFrom]
  | cons text rest ih =>
      cases n with
      | zero => rfl
      | succ n => rw [List.take_succ_cons, linesFrom, linesFrom, List.take_succ_cons, ih]

namespace Function

variable {texts : List (List Char)} {target item : List Char} {line : Line}
  {above later below : List Line} {function : Function} {last index : Nat}

/-- The last line of a function is not empty. -/
theorem raw_ne_nil_of_read (excerpt : Excerpt texts index (line :: later))
    (lengths : ∀ other ∈ line :: later, other.code.length = other.raw.length)
    (read : Function.read target item line later = .ok (function, last)) :
    ∃ closing, (line :: later)[last]? = some closing ∧ closing.raw ≠ [] := by
  obtain ⟨found, -, read⟩ := read_eq_ok read
  obtain ⟨signature, signed, closed, -⟩ := readFound_eq_ok read
  obtain ⟨opener, front, back, front_length, behind⟩ := Signature.find_eq_ok signed
  have feedless : ∀ code ∈ line.codeFrom item :: later.map (·.code), '\n' ∉ code :=
    List.forall_mem_cons.mpr ⟨Line.feedless_codeFrom excerpt.numbered.2.2.1 item,
      excerpt.tail.numbered.feedless_code⟩
  generalize joined_eq : joinLines (line.codeFrom item :: later.map (·.code)) = joined at behind
  have name_le : found.stop.offset ≤ joined.length := by
    by_contra beyond
    rw [List.drop_eq_nil_of_le (Nat.le_of_not_le beyond)] at behind
    simp at behind
  have whole : joined = (joined.take found.stop.offset ++ front) ++ signature.opener :: back := by
    rw [List.append_assoc, ← behind, List.take_append_drop]
  have offset_eq : found.stop.offset + signature.bodyOffset =
      (joined.take found.stop.offset ++ front).length := by
    rw [List.length_append, List.length_take, Nat.min_eq_left name_le, front_length]
  have other : signature.opener ≠ '\n' := by
    rcases opener with opener | opener <;> rw [opener] <;> decide
  rw [offset_eq] at closed
  obtain ⟨code, code_eq, code_ne⟩ :=
    ne_nil_of_lastLine feedless (joined_eq.trans whole) other closed
  have solid {closing : Line} (mem : closing ∈ line :: later) (code_ne : closing.code ≠ []) :
      closing.raw ≠ [] := by
    rwa [← List.length_pos_iff, ← lengths closing mem, List.length_pos_iff]
  cases last with
  | zero =>
      obtain rfl := Option.some.inj code_eq
      refine ⟨line, rfl, solid List.mem_cons_self ?_⟩
      intro empty
      rw [Line.codeFrom, empty, List.drop_nil] at code_ne
      contradiction
  | succ last =>
      rw [List.getElem?_cons_succ, List.getElem?_map] at code_eq
      obtain ⟨closing, closing_eq, rfl⟩ := Option.map_eq_some_iff.mp code_eq
      exact ⟨closing, closing_eq,
        solid (List.mem_cons_of_mem line (List.mem_of_getElem? closing_eq)) code_ne⟩

/-- The definition of a function is split into the lines that it was read from. -/
theorem linesOf_definition (inside : ∀ text ∈ texts, OneLine text)
    (cut : Line.ofTexts texts = above ++ line :: later ++ below)
    (read : Function.read target item line later = .ok (function, last)) :
    linesOf function.definition = ((line :: later).map (·.raw)).take (last + 1) := by
  have excerpt := Excerpt.of_ofTexts (fun text mem => (inside text mem).feedless) cut
  have lengths : ∀ other ∈ line :: later, other.code.length = other.raw.length := by
    intro other mem
    have listed : other ∈ Line.ofTexts texts := by
      rw [cut]
      exact List.mem_append_left _ (List.mem_append_right _ mem)
    exact Line.length_code_of_mem listed
  have raws_inside : ∀ raw ∈ (line :: later).map (·.raw), OneLine raw := by
    intro raw mem
    refine inside raw ?_
    rw [Line.texts_eq_of_ofTexts cut]
    exact List.mem_append_left _ (List.mem_append_right _ mem)
  obtain ⟨closing, closing_eq, closing_ne⟩ := raw_ne_nil_of_read excerpt lengths read
  obtain ⟨found, -, found_read⟩ := read_eq_ok read
  obtain ⟨signature, -, -, rfl⟩ := readFound_eq_ok found_read
  have run_eq : ((line :: later).map (·.raw)).take (last + 1) =
      ((line :: later).map (·.raw)).take last ++ [closing.raw] := by
    rw [List.take_add_one, List.getElem?_map, closing_eq]
    rfl
  rw [linesOf, Line.rawThrough, String.toList_ofList, run_eq]
  have closing_mem := List.mem_map_of_mem (f := (·.raw)) (List.mem_of_getElem? closing_eq)
  rw [splitLines_joinLines (fun raw mem => raws_inside raw (List.mem_of_mem_take mem))
    (raws_inside closing.raw closing_mem), if_neg closing_ne]

/-- Masking a function by itself gives the code that the parser has seen, if the first line of the
function begins in plain code. -/
theorem code_eq_of_read (inside : ∀ text ∈ texts, OneLine text)
    (cut : Line.ofTexts texts = above ++ line :: later ++ below)
    (read : Function.read target item line later = .ok (function, last))
    (plain : Mask.behind .code (above.map (·.raw)) = .code) :
    function.code = joinLines (function.extent.slice (mask texts)) := by
  have excerpt := Excerpt.of_ofTexts (fun text mem => (inside text mem).feedless) cut
  obtain ⟨last_le, extent_eq, -⟩ := occupies_of_read excerpt read
  have within : last + 1 ≤ ((line :: later).map (·.raw)).length := by simpa using last_le
  have start_eq : ((above.length : Int) + 1 - 1).toNat = (above.map (·.raw)).length := by simp
  have count_eq : ((above.length : Int) + 1 + last - (above.length + 1) + 1).toNat = last + 1 := by
    omega
  have masked : mask texts = Mask.linesFrom .code (above.map (·.raw)) ++
      Mask.linesFrom .code ((line :: later).map (·.raw) ++ below.map (·.raw)) := by
    rw [Line.texts_eq_of_ofTexts cut, List.append_assoc, mask, Mask.linesFrom_append, plain]
  have above_length : (Mask.linesFrom .code (above.map (·.raw))).length =
      (above.map (·.raw)).length := length_mask_eq _
  rw [code, codeLines, linesOf_definition inside cut read, extent_eq, Extent.slice]
  dsimp only
  rw [start_eq, count_eq, masked, ← above_length, List.drop_left, ← Mask.linesFrom_take,
    List.take_append_of_le_length within]
  rfl

/-- The line of a function begins in plain code or in a block comment. -/
theorem behind_above_of_header (cut : Line.ofTexts texts = above ++ line :: later ++ below)
    (header : header.isHeadOf line.item = true) :
    Mask.behind .code (above.map (·.raw)) = .code ∨
      Mask.behind .code (above.map (·.raw)) = .block := by
  generalize state_eq : Mask.behind .code (above.map (·.raw)) = state
  have code_eq : line.code = (Mask.line state line.raw).1 := by
    have masked : mask texts = Mask.linesFrom .code (above.map (·.raw)) ++
        Mask.linesFrom state (line.raw :: later.map (·.raw) ++ below.map (·.raw)) := by
      rw [Line.texts_eq_of_ofTexts cut, List.append_assoc, mask, Mask.linesFrom_append, state_eq]
      rfl
    rw [Line.mask_eq_of_ofTexts cut, List.append_assoc] at masked
    have above_length : (above.map (·.code)).length =
        (Mask.linesFrom .code (above.map (·.raw))).length := by
      rw [← mask, length_mask_eq, List.length_map, List.length_map]
    exact (List.cons.inj (List.append_inj_right masked above_length)).1
  rcases Mask.behind_code (above.map (·.raw)) with plain | block | string
  · exact .inl (state_eq.symm.trans plain)
  · exact .inr (state_eq.symm.trans block)
  · rw [Line.item, code_eq, state_eq.symm.trans string, Mask.isHeadOf_line_string] at header
    contradiction

/-- Masking a function by itself gives the code that the parser has seen, unless a block comment is
open where its first line begins. -/
theorem code_eq_of_header (inside : ∀ text ∈ texts, OneLine text)
    (cut : Line.ofTexts texts = above ++ line :: later ++ below)
    (header : header.isHeadOf line.item = true)
    (read : Function.read target item line later = .ok (function, last))
    (closed : Mask.behind .code (texts.take (function.line - 1).toNat) ≠ .block) :
    function.code = joinLines (function.extent.slice (mask texts)) := by
  have excerpt := Excerpt.of_ofTexts (fun text mem => (inside text mem).feedless) cut
  have above_eq : texts.take (function.line - 1).toNat = above.map (·.raw) := by
    have first_eq : function.extent.first = above.length + 1 := by
      rw [(occupies_of_read excerpt read).2.1]
    have index_eq : (function.line - 1).toNat = (above.map (·.raw)).length := by
      rw [List.length_map]
      change (function.extent.first - 1).toNat = above.length
      omega
    rw [index_eq, Line.texts_eq_of_ofTexts cut, List.append_assoc, List.take_left]
  rw [above_eq] at closed
  exact code_eq_of_read inside cut read ((behind_above_of_header cut header).resolve_right closed)

end Function

/-! ## Contracts -/

namespace Contract

variable {source path : String} {contract : Contract}

/-- The rules see the same code of a function as the parser, unless a block comment is open where
its first line begins. -/
theorem code_eq_of_parse (parsed : parse source path = .ok contract) {function : Function}
    (mem : function ∈ contract.functions)
    (closed : Mask.behind .code ((linesOf source).take (function.line - 1).toNat) ≠ .block) :
    function.code = joinLines (function.extent.slice (mask (linesOf source))) := by
  obtain ⟨target, above, line, later, below, last, cut, header, read⟩ :=
    exists_read_of_mem_functions parsed mem
  exact Function.code_eq_of_header (fun text mem => oneLine_of_mem_splitLines mem) cut header read
    closed

/-- A string over two lines, with a quoted brace in the body below it. -/
theorem code_eq_of_parse_strings :
    let definition := "  /* c */ fn f() \x7b g(\"a \x7d\n // \"); \x7d // h"
    let block := "impl A \x7b\n" ++ definition ++ "\n\x7d"
    let source := "#[contract]\nstruct A;\n#[contractimpl]\n" ++ block ++ "\n"
    let function : Function := ⟨"f", [], none, .priv, false, 5, definition⟩
    let contract : Contract :=
      ⟨"A", [⟨"A", [], 2, "struct A;"⟩], [⟨"A", [function], 4, block⟩], source, "a.rs"⟩
    parse source "a.rs" = .ok contract ∧ function ∈ contract.functions ∧
      Mask.behind .code ((linesOf source).take (function.line - 1).toNat) ≠ .block ∧
      function.code = joinLines (function.extent.slice (mask (linesOf source))) := by
  intro definition block source function contract
  have parsed : parse source "a.rs" = .ok contract := by decide +kernel
  have mem : function ∈ contract.functions := List.mem_singleton.mpr rfl
  have closed : Mask.behind .code ((linesOf source).take (function.line - 1).toNat) ≠ .block := by
    decide +kernel
  exact ⟨parsed, mem, closed, code_eq_of_parse parsed mem closed⟩

/-- Behind the end of a block comment the rules see code where the parser saw the comment. -/
theorem code_ne_behind_comment :
    let definition := "  x.to_string() */ fn f() \x7b \x7d"
    let block := "impl A \x7b\n  /* was\n" ++ definition ++ "\n\x7d"
    let source := "#[contracttype]\nstruct A \x7b \x7d\n#[contractimpl]\n" ++ block ++ "\n"
    let function : Function := ⟨"f", [], none, .priv, false, 6, definition⟩
    let contract : Contract :=
      ⟨"A", [⟨"A", [], 2, "struct A \x7b \x7d"⟩], [⟨"A", [function], 4, block⟩], source, "a.rs"⟩
    parse source "a.rs" = .ok contract ∧ function ∈ contract.functions ∧
      function.code ≠ joinLines (function.extent.slice (mask (linesOf source))) := by
  intro definition block source function contract
  have parsed : parse source "a.rs" = .ok contract := by decide +kernel
  have mem : function ∈ contract.functions := List.mem_singleton.mpr rfl
  exact ⟨parsed, mem, by decide +kernel⟩

end Contract
end SorobanLint
