import SorobanLint.Proofs.Blanks
import SorobanLint.Proofs.OpenBraces
import SorobanLint.Proofs.Pattern

/-!
# Attributes in a text

What peeling takes off a text does not depend on how the text is broken into lines: squeezing the
text changes no name in it (`peelFrom_squeeze`), and what follows the attributes is left behind them
(`peelFrom_append`).  So the attributes that a scan gathers from several lines are those of the
source itself, and the item behind them stands at its column of the last line (`peel_lines`); on a
single line, it is what stands behind the attributes there, without the blanks at the end
(`Line.item_eq`).
-/

namespace SorobanLint

open Text

namespace Attribute

variable {depth : Option Nat} {c : Char} {s t u text name : List Char}

/-! ## Squeezed texts -/

theorem peelFrom_append_blank {blanks : List Char} (blank : ∀ c ∈ blanks, isBlank c = true)
    (depth : Option Nat) (s : List Char) : peelFrom depth (blanks ++ s) = peelFrom depth s := by
  induction blanks with
  | nil => rfl
  | cons c blanks ih =>
      rw [List.forall_mem_cons] at blank
      rw [List.cons_append]
      cases depth with
      | none => rw [peelFrom, if_pos blank.1, ih blank.2]
      | some depth =>
          have not_opener : c ≠ '[' := by rintro rfl; exact absurd blank.1 (by decide)
          have not_closer : c ≠ ']' := by rintro rfl; exact absurd blank.1 (by decide)
          rw [peelFrom, if_neg not_opener, if_neg not_closer, ih blank.2]

/-- The path at the beginning of an attribute whose text behind the opening bracket is given. -/
def path (text : List Char) : List Char :=
  (trimStart text).takeWhile fun c => isWord c || c = ':'

theorem name?_eq (text : List Char) :
    name? text = if (path text).isEmpty then none else some (lastSegment (path text)) := rfl

theorem name?_squeeze {gap : List Char} (blank : ∀ c ∈ gap, isBlank c = true) (s : List Char) :
    name? (gap ++ squeeze s) = name? s := by
  have outside_path (c : Char) (blank : isBlank c = true) : (isWord c || c = ':') = false := by
    have not_colon : c ≠ ':' := by
      rintro rfl
      exact absurd blank (by decide)
    rw [isWord_of_isBlank blank, Bool.false_or, decide_eq_false_iff_not]
    exact not_colon
  have path_eq : path (gap ++ squeeze s) = path s := by
    rw [path, trimStart_append_blank blank, trimStart_squeeze, takeWhile_squeeze outside_path, path]
  rw [name?_eq, path_eq, name?_eq]

theorem inside?_cons_of_ne {c : Char} (other : c ≠ '#') (s : List Char) :
    inside? (c :: s) = none := by
  simp [inside?, other]

/-- A text begins with an attribute if the squeezed text does, and then the texts behind the opening
brackets differ in blanks alone. -/
theorem inside?_squeeze_cons {c : Char} (solid : isBlank c = false) (s : List Char) :
    (∃ text gap, (∀ c ∈ gap, isBlank c = true) ∧ inside? (c :: s) = some text ∧
      inside? (squeeze (c :: s)) = some (gap ++ squeeze text)) ∨
    inside? (c :: s) = none ∧ inside? (squeeze (c :: s)) = none := by
  by_cases hash : c = '#'
  · subst hash
    rcases s with _ | ⟨d, s⟩
    · exact .inr ⟨rfl, rfl⟩
    cases d_blank : isBlank d with
    | true =>
        have not_mark : d ≠ '!' := by rintro rfl; exact absurd d_blank (by decide)
        have not_bracket : d ≠ '[' := by rintro rfl; exact absurd d_blank (by decide)
        refine .inr ⟨by simp [inside?, not_mark, not_bracket], ?_⟩
        rw [squeeze_cons_gap solid d_blank]
        split <;> rfl
    | false =>
        obtain ⟨gap, gap_blank, squeeze_eq⟩ := squeeze_cons_solid d_blank s
        by_cases bracket : d = '['
        · subst bracket
          refine .inl ⟨s, gap, gap_blank, rfl, ?_⟩
          rw [squeeze_cons_cons solid d_blank, squeeze_eq]
          rfl
        by_cases mark : d = '!'
        · subst mark
          rcases s with _ | ⟨e, s⟩
          · exact .inr ⟨rfl, rfl⟩
          cases e_blank : isBlank e with
          | true =>
              have not_bracket : e ≠ '[' := by rintro rfl; exact absurd e_blank (by decide)
              refine .inr ⟨by simp [inside?, not_bracket], ?_⟩
              rw [squeeze_cons_cons solid d_blank, squeeze_cons_gap d_blank e_blank]
              split <;> rfl
          | false =>
              obtain ⟨gap, gap_blank, squeeze_eq⟩ := squeeze_cons_solid e_blank s
              rw [squeeze_cons_cons solid d_blank, squeeze_cons_cons d_blank e_blank, squeeze_eq]
              by_cases bracket : e = '['
              · subst bracket
                exact .inl ⟨s, gap, gap_blank, rfl, rfl⟩
              · exact .inr ⟨by simp [inside?, bracket], by simp [inside?, bracket]⟩
        · rw [squeeze_cons_cons solid d_blank, squeeze_eq]
          exact .inr ⟨by simp [inside?, bracket, mark], by simp [inside?, bracket, mark]⟩
  · obtain ⟨gap, -, squeeze_eq⟩ := squeeze_cons_solid solid s
    exact .inr ⟨inside?_cons_of_ne hash s, squeeze_eq ▸ inside?_cons_of_ne hash _⟩

/-- Squeezing a text changes nothing in its attributes, and squeezes what stands behind them. -/
theorem peelFrom_squeeze (depth : Option Nat) (s : List Char) :
    peelFrom depth (squeeze s) =
      { peelFrom depth s with rest := squeeze (peelFrom depth s).rest } := by
  have solid_of_not {c : Char} (h : ¬isBlank c = true) : isBlank c = false := by simpa using h
  fun_induction peelFrom depth s with
  | case1 => rfl
  | case2 => rfl
  | case3 c rest blank ih => rw [squeeze_cons_blank blank, ih]
  | case4 c rest solid outside =>
      rcases inside?_squeeze_cons (solid_of_not solid) rest with
        ⟨text, -, -, inside, -⟩ | ⟨-, nothing⟩
      · exact absurd (inside.symm.trans outside) (Option.some_ne_none text)
      · obtain ⟨gap, -, squeeze_eq⟩ := squeeze_cons_solid (solid_of_not solid) rest
        rw [squeeze_eq] at nothing ⊢
        simp only [peelFrom, if_neg solid, nothing]
  | case5 c rest solid text inside tail ih =>
      rcases inside?_squeeze_cons (solid_of_not solid) rest with
        ⟨text', gap, gap_blank, inside', squeezed⟩ | ⟨nothing, -⟩
      · rw [inside] at inside'
        obtain rfl := Option.some.inj inside'
        obtain ⟨gap, rest_blank, squeeze_eq⟩ := squeeze_cons_solid (solid_of_not solid) rest
        rw [squeeze_eq] at squeezed ⊢
        simp only [peelFrom, if_neg solid, squeezed, name?_squeeze gap_blank,
          peelFrom_append_blank rest_blank, ih]
        rfl
      · exact absurd (nothing.symm.trans inside) (Option.some_ne_none text).symm
  | case6 depth rest ih =>
      obtain ⟨gap, gap_blank, squeeze_eq⟩ := squeeze_cons_solid (c := '[') (by decide) rest
      rw [squeeze_eq, peelFrom, if_pos rfl, peelFrom_append_blank gap_blank, ih]
  | case7 depth rest other ih =>
      obtain ⟨gap, gap_blank, squeeze_eq⟩ := squeeze_cons_solid (c := ']') (by decide) rest
      rw [squeeze_eq, peelFrom, if_neg other, if_pos rfl, peelFrom_append_blank gap_blank, ih]
  | case8 depth c rest not_opener not_closer ih =>
      cases blank : isBlank c with
      | true => rw [squeeze_cons_blank blank, ih]
      | false =>
          obtain ⟨gap, gap_blank, squeeze_eq⟩ := squeeze_cons_solid blank rest
          rw [squeeze_eq, peelFrom, if_neg not_opener, if_neg not_closer,
            peelFrom_append_blank gap_blank, ih]

/-! ## Text behind -/

theorem inside?_append (found : inside? s = some text) (u : List Char) :
    inside? (s ++ u) = some (text ++ u) := by
  revert found
  fun_cases inside? s with
  | case1 text => rintro ⟨⟩; rfl
  | case2 text => rintro ⟨⟩; rfl
  | case3 => rintro ⟨⟩

theorem eq_of_inside? (found : inside? s = some text) :
    s = '#' :: '[' :: text ∨ s = '#' :: '!' :: '[' :: text := by
  revert found
  fun_cases inside? s with
  | case1 text => rintro ⟨⟩; exact .inl rfl
  | case2 text => rintro ⟨⟩; exact .inr rfl
  | case3 => rintro ⟨⟩

/-- What stands behind the attributes ends the text, and it does not begin with a blank. -/
theorem rest_suffix (depth : Option Nat) (s : List Char) :
    (peelFrom depth s).rest <:+ s ∧ ∀ c ∈ (peelFrom depth s).rest.head?, isBlank c = false := by
  fun_induction peelFrom depth s with
  | case1 => exact ⟨List.suffix_rfl, by simp⟩
  | case2 => exact ⟨List.suffix_rfl, by simp⟩
  | case3 c rest blank ih => exact ⟨ih.1.trans (List.suffix_cons c rest), ih.2⟩
  | case4 c rest solid outside =>
      refine ⟨List.suffix_rfl, ?_⟩
      rintro d ⟨⟩
      simpa using solid
  | case5 c rest solid text inside tail ih => exact ⟨ih.1.trans (List.suffix_cons c rest), ih.2⟩
  | case6 depth rest ih => exact ⟨ih.1.trans (List.suffix_cons '[' rest), ih.2⟩
  | case7 depth rest other ih => exact ⟨ih.1.trans (List.suffix_cons ']' rest), ih.2⟩
  | case8 depth c rest not_opener not_closer ih =>
      exact ⟨ih.1.trans (List.suffix_cons c rest), ih.2⟩

/-- A text with an item is that of attributes that are all closed. -/
theorem closed_of_rest (item : (peelFrom depth s).rest ≠ []) :
    (peelFrom depth s).closed = true := by
  fun_induction peelFrom depth s with
  | case1 => rfl
  | case2 depth => contradiction
  | case3 c rest blank ih => exact ih item
  | case4 c rest solid outside => rfl
  | case5 c rest solid text inside tail ih => exact ih item
  | case6 depth rest ih => exact ih item
  | case7 depth rest other ih => exact ih item
  | case8 depth c rest not_opener not_closer ih => exact ih item

/-- What stands behind an attribute that is open behind a text stands behind that text. -/
theorem rest_suffix_of_open (unfinished : (peelFrom depth s).closed = false) (u : List Char) :
    (peelFrom depth (s ++ u)).rest <:+ u := by
  fun_induction peelFrom depth s with
  | case1 => contradiction
  | case2 depth => exact (rest_suffix (some depth) u).1
  | case3 c rest blank ih =>
      rw [List.cons_append, peelFrom, if_pos blank]
      exact ih unfinished
  | case4 c rest solid outside => contradiction
  | case5 c rest solid text inside tail ih =>
      have inside_append := inside?_append inside u
      rw [List.cons_append] at inside_append ⊢
      simp only [peelFrom, if_neg solid, inside_append]
      exact ih unfinished
  | case6 depth rest ih =>
      rw [List.cons_append, peelFrom, if_pos rfl]
      exact ih unfinished
  | case7 depth rest other ih =>
      rw [List.cons_append, peelFrom, if_neg other, if_pos rfl]
      exact ih unfinished
  | case8 depth c rest not_opener not_closer ih =>
      rw [List.cons_append, peelFrom, if_neg not_opener, if_neg not_closer]
      exact ih unfinished

/-- The text of a named attribute, and everything behind it, ends the text that is peeled. -/
theorem exists_of_mem_names (mem : name ∈ (peelFrom depth s).names) :
    ∃ t, t <:+ s ∧ (inside? t).bind name? = some name ∧
      (peel t).rest = (peelFrom depth s).rest ∧ (peel t).closed = (peelFrom depth s).closed := by
  fun_induction peelFrom depth s with
  | case1 => contradiction
  | case2 depth => contradiction
  | case3 c rest blank ih =>
      obtain ⟨t, behind, begins⟩ := ih mem
      exact ⟨t, behind.trans (List.suffix_cons c rest), begins⟩
  | case4 c rest solid outside => contradiction
  | case5 c rest solid text inside tail ih =>
      rcases List.mem_append.mp mem with first | later
      · refine ⟨c :: rest, List.suffix_rfl, ?_, ?_⟩
        · rw [inside, Option.bind_some]
          exact Option.mem_toList.mp first
        · simp only [peel, peelFrom, if_neg solid, inside]
          exact ⟨rfl, rfl⟩
      · obtain ⟨t, behind, begins⟩ := ih later
        exact ⟨t, behind.trans (List.suffix_cons c rest), begins⟩
  | case6 depth rest ih =>
      obtain ⟨t, behind, begins⟩ := ih mem
      exact ⟨t, behind.trans (List.suffix_cons '[' rest), begins⟩
  | case7 depth rest other ih =>
      obtain ⟨t, behind, begins⟩ := ih mem
      exact ⟨t, behind.trans (List.suffix_cons ']' rest), begins⟩
  | case8 depth c rest not_opener not_closer ih =>
      obtain ⟨t, behind, begins⟩ := ih mem
      exact ⟨t, behind.trans (List.suffix_cons c rest), begins⟩

/-- The path of an attribute is read in front of its closing bracket. -/
theorem path_append_bracket (inner rest : List Char) :
    path (inner ++ ']' :: rest) = path inner := by
  rw [path, trimStart_append_cons (by decide), takeWhile_append_cons (by decide), path]

theorem mem_of_closed {depth : Nat} (closed : (peelFrom (some depth) s).closed = true) :
    ']' ∈ s := by
  induction s generalizing depth with
  | nil => contradiction
  | cons c s ih =>
      rw [peelFrom] at closed
      split at closed
      · exact List.mem_cons_of_mem c (ih closed)
      · split at closed
        next closer => rw [closer]; exact List.mem_cons_self
        next => exact List.mem_cons_of_mem c (ih closed)

/-- The name of an attribute that is closed does not depend on what stands behind it. -/
theorem name?_append_of_closed (inside : inside? (c :: s) = some text)
    (closed : (peelFrom (some 0) s).closed = true) (u : List Char) :
    name? (text ++ u) = name? text := by
  have closes : ']' ∈ text := by
    have closes := mem_of_closed closed
    rcases eq_of_inside? inside with s_eq | s_eq <;>
    · obtain ⟨-, rfl⟩ := List.cons.inj s_eq
      simpa using closes
  obtain ⟨inner, rest, rfl⟩ := List.append_of_mem closes
  rw [name?_eq, List.append_assoc, List.cons_append, path_append_bracket, name?_eq,
    path_append_bracket]

theorem inside?_append_eq_none (nothing : inside? s = none) (nonempty : s ≠ [])
    (blank : ∀ c ∈ u.head?, isBlank c = true) : inside? (s ++ u) = none := by
  have head_ne {d : Char} (solid : isBlank d = false) (rest : List Char) : u ≠ d :: rest := by
    rintro rfl
    exact absurd (blank d rfl) (by simp [solid])
  have bracket := head_ne (d := '[') (by decide)
  have mark := head_ne (d := '!') (by decide)
  by_contra found
  obtain ⟨text, found⟩ := Option.ne_none_iff_exists'.mp found
  match s, nonempty with
  | [c], _ => rcases eq_of_inside? found with eq | eq <;> simp_all
  | [c, d], _ => rcases eq_of_inside? found with eq | eq <;> simp_all [inside?]
  | c :: d :: e :: s, _ => rcases eq_of_inside? found with eq | eq <;> simp_all [inside?]

/-- A text is peeled on behind attributes that are all closed, and left alone behind an item, as
long as a blank parts it from the item. -/
theorem peelFrom_append (closed : (peelFrom depth s).closed = true)
    (parted : (peelFrom depth s).rest ≠ [] → ∀ c ∈ u.head?, isBlank c = true) :
    peelFrom depth (s ++ u) =
      if (peelFrom depth s).rest = [] then
        { peel u with names := (peelFrom depth s).names ++ (peel u).names }
      else { peelFrom depth s with rest := (peelFrom depth s).rest ++ u } := by
  fun_induction peelFrom depth s with
  | case1 => rfl
  | case2 depth => contradiction
  | case3 c rest blank ih =>
      rw [List.cons_append, peelFrom, if_pos blank]
      exact ih closed parted
  | case4 c rest solid outside =>
      have item : c :: rest ≠ [] := List.cons_ne_nil c rest
      have outside_append := inside?_append_eq_none outside item (parted item)
      rw [List.cons_append] at outside_append ⊢
      simp only [peelFrom, if_neg solid, outside_append, if_neg item]
  | case5 c rest solid text inside tail ih =>
      have inside_append := inside?_append inside u
      rw [List.cons_append] at inside_append ⊢
      simp only [peelFrom, if_neg solid, inside_append, ih closed parted,
        name?_append_of_closed inside closed]
      split <;> simp [tail]
  | case6 depth rest ih =>
      rw [List.cons_append, peelFrom, if_pos rfl]
      exact ih closed parted
  | case7 depth rest other ih =>
      rw [List.cons_append, peelFrom, if_neg other, if_pos rfl]
      exact ih closed parted
  | case8 depth c rest not_opener not_closer ih =>
      rw [List.cons_append, peelFrom, if_neg not_opener, if_neg not_closer]
      exact ih closed parted

theorem peel_append_of_done {names : List (List Char)} (done : peel s = ⟨names, [], true⟩)
    (u : List Char) : peel (s ++ u) = { peel u with names := names ++ (peel u).names } := by
  rw [peel] at done
  rw [peel, peelFrom_append (by rw [done]) (by simp [done]), done, if_pos rfl]

/-! ## Attributes over several lines -/

theorem words_gather (codes : List (List Char)) : words (gather codes) = codes.flatMap words := by
  induction codes with
  | nil => rfl
  | cons code codes ih =>
      cases codes with
      | nil => rw [gather_singleton, words_trim, List.flatMap_singleton]
      | cons next codes =>
          rw [gather_cons_cons, words_eq_runs, runs_append_cons (by decide), ← words_eq_runs,
            ← words_eq_runs, words_trim, ih]
          rfl

/-- The text of an attribute is peeled alike in its lines and as a scan puts them together. -/
theorem peel_of_words (same : words s = words t) :
    (peel s).names = (peel t).names ∧ (peel s).closed = (peel t).closed ∧
      squeeze (peel s).rest = squeeze (peel t).rest := by
  have squeezed : squeeze s = squeeze t := by rw [squeeze, same, squeeze]
  have peeled := peelFrom_squeeze none s
  rw [squeezed, peelFrom_squeeze none t, Peeled.mk.injEq] at peeled
  exact ⟨peeled.1.symm, peeled.2.2.symm, peeled.2.1.symm⟩

/-- The lines are those of an attribute that none of them closes, or there are none. -/
def Unclosed (codes : List (List Char)) : Prop :=
  codes ≠ [] → (peel (gather codes)).closed = false

theorem words_concat (pending : List (List Char)) (code : List Char) :
    words (terminated pending ++ code) = words (gather (pending ++ [code])) := by
  have feed : isBlank '\n' = true := rfl
  rw [words_gather, List.flatMap_append, List.flatMap_singleton, ← words_terminated]
  cases pending using List.reverseRecOn with
  | nil => rfl
  | append_singleton front last =>
      have ended : terminated (front ++ [last]) = terminated front ++ last ++ ['\n'] := by
        simp [terminated]
      rw [ended, words_eq_runs, words_eq_runs, List.append_assoc (_ ++ last), List.singleton_append,
        runs_append_cons feed, runs_concat feed, words_eq_runs]

/-- The item behind the attributes on a line is the end of that line. -/
theorem item_suffix {pending : List (List Char)} (unclosed : Unclosed pending)
    (code : List Char) :
    (peel (gather (pending ++ [code]))).rest <:+ trim code ∧
      (peel (terminated pending ++ code)).rest <:+ code := by
  by_cases none_above : pending = []
  · rw [none_above, List.nil_append, gather_singleton]
    exact ⟨(rest_suffix none (trim code)).1, (rest_suffix none code).1⟩
  · have unclosed_lines : (peel (terminated pending)).closed = false := by
      rw [(peel_of_words ((words_terminated pending).trans (words_gather pending).symm)).2.1]
      exact unclosed none_above
    refine ⟨?_, rest_suffix_of_open unclosed_lines code⟩
    rw [gather_concat none_above]
    rcases List.suffix_cons_iff.mp (rest_suffix_of_open (unclosed none_above) (' ' :: trim code))
      with whole | inside
    · have solid := (rest_suffix none (gather pending ++ ' ' :: trim code)).2
      rw [← peel, peel, whole] at solid
      exact absurd (solid ' ' rfl) (by decide)
    · exact inside

end Attribute

/-- The item of a line stands at the end of its trimmed code. -/
theorem Line.item_suffix_trim (line : Line) : line.item <:+ trim line.code :=
  (Attribute.rest_suffix none (trim line.code)).1

/-- A line from the column of its item on is the item and the blanks behind it. -/
theorem Line.codeFrom_eq_append (line : Line) {item : List Char}
    (behind : item <:+ trim line.code) :
    ∃ front trail, (∀ c ∈ trail, isBlank c = true) ∧ line.codeFrom item = item ++ trail ∧
      line.code = front ++ line.codeFrom item := by
  obtain ⟨trail, trail_blank, code_eq⟩ := exists_append_trimEnd line.code
  obtain ⟨front, trimmed_eq⟩ := behind.trans (trim_suffix_trimEnd line.code)
  have codeFrom_eq : line.codeFrom item = item ++ trail := by
    rw [Line.codeFrom, ← trimmed_eq, List.length_append, Nat.add_sub_cancel]
    conv => left; rw [code_eq, ← trimmed_eq, List.append_assoc]
    exact List.drop_left
  refine ⟨front, trail, trail_blank, codeFrom_eq, ?_⟩
  rw [codeFrom_eq, ← List.append_assoc, trimmed_eq, ← code_eq]

namespace Attribute

/-- The attributes in front of an item, over however many lines, are peeled off the lines of the
source as off the line that a scan puts together, and the item stands at its column. -/
theorem peel_lines {pending : List (List Char)} {line : Line} {names : List (List Char)}
    {item : List Char} (unclosed : Unclosed pending)
    (peeled : peel (gather (pending ++ [line.code])) = ⟨names, item, true⟩) (nonempty : item ≠ []) :
    peel (terminated pending ++ line.code) = ⟨names, line.codeFrom item, true⟩ := by
  obtain ⟨names_eq, closed_eq, rest_eq⟩ := peel_of_words (words_concat pending line.code)
  obtain ⟨in_trim, in_code⟩ := item_suffix unclosed line.code
  have solid := (rest_suffix none (gather (pending ++ [line.code]))).2
  have lines_solid := (rest_suffix none (terminated pending ++ line.code)).2
  rw [← peel] at solid lines_solid
  rw [peeled] at names_eq closed_eq rest_eq in_trim solid
  dsimp only at names_eq closed_eq rest_eq in_trim solid
  obtain ⟨front, trail, trail_blank, codeFrom_eq, code_eq⟩ := line.codeFrom_eq_append in_trim
  have item_eq : (peel (terminated pending ++ line.code)).rest = line.codeFrom item := by
    refine eq_of_suffix_of_squeeze in_code ⟨front, code_eq.symm⟩ lines_solid ?_ ?_
    · rw [codeFrom_eq, Pattern.head?_append_of_ne_nil nonempty]
      exact solid
    · rw [rest_eq, codeFrom_eq, squeeze, squeeze, words_append_blank trail_blank]
  rw [← item_eq, ← names_eq, ← closed_eq]

end Attribute

namespace Line

variable {line : Line}

/-- A line has an item in its trimmed code if it has one in its code. -/
theorem item_ne_nil_iff : line.item ≠ [] ↔ (Attribute.peel line.code).rest ≠ [] := by
  have nil_of_squeeze {s : List Char} (solid : ∀ c ∈ s.head?, isBlank c = false)
      (same : squeeze [] = squeeze s) : s = [] := by
    cases s with
    | nil => rfl
    | cons c s =>
        obtain ⟨gap, -, squeeze_eq⟩ := squeeze_cons_solid (solid c rfl) s
        rw [squeeze_eq] at same
        contradiction
  have same := (Attribute.peel_of_words (words_trim line.code)).2.2
  change squeeze line.item = _ at same
  refine not_congr ⟨fun nothing => ?_, fun nothing => ?_⟩
  · rw [nothing] at same
    exact nil_of_squeeze (Attribute.rest_suffix none line.code).2 same
  · rw [nothing] at same
    exact nil_of_squeeze (Attribute.rest_suffix none (trim line.code)).2 same.symm

/-- The item of a line is what stands behind its attributes, without the blanks at the end. -/
theorem item_eq (nonempty : (Attribute.peel line.code).rest ≠ []) :
    line.codeFrom line.item = (Attribute.peel line.code).rest ∧
      line.item = trimEnd (Attribute.peel line.code).rest := by
  have item_nonempty := item_ne_nil_iff.mpr nonempty
  have closed : (Attribute.peel (trim line.code)).closed = true :=
    Attribute.closed_of_rest item_nonempty
  have unclosed : Attribute.Unclosed [] := fun some_lines => absurd rfl some_lines
  have peeled : Attribute.peel (Attribute.gather ([] ++ [line.code])) =
      ⟨(Attribute.peel (trim line.code)).names, line.item, true⟩ := by
    rw [List.nil_append, Attribute.gather_singleton, ← closed]
    rfl
  have code_peeled := Attribute.peel_lines unclosed peeled item_nonempty
  obtain ⟨-, trail, trail_blank, codeFrom_eq, -⟩ := line.codeFrom_eq_append line.item_suffix_trim
  change Attribute.peel line.code = _ at code_peeled
  rw [code_peeled, codeFrom_eq]
  exact ⟨rfl, by rw [trimEnd_append_blank trail_blank, trimEnd_of_suffix line.item_suffix_trim]⟩

end Line
end SorobanLint
