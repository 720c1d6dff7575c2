import SorobanLint.Contract.Outline
import SorobanLint.Proofs.Lines

/-!
# What reading a declaration consumes

A struct, a block or a function is read from a text that begins on its first line.  A successful
reading names the last line of the declaration (`Struct.read_eq_ok`, `ImplBlock.read_eq_ok`,
`Function.read_eq_ok`), and that line is one of those the reader was given.
-/

namespace SorobanLint

open Text

theorem bind_eq_ok_iff {ε α β : Type} {first : Except ε α} {next : α → Except ε β} {result : β} :
    first >>= next = .ok result ↔ ∃ value, first = .ok value ∧ next value = .ok result := by
  cases first with
  | error fault => simp [bind, Except.bind]
  | ok value => simp [bind, Except.bind]

/-! ## Brackets -/

namespace Bracket

theorem append_of_closeBrace? {depth : Nat} {text inner after : List Char}
    (closed : closeBrace? depth text = some (inner, after)) : text = inner ++ '}' :: after := by
  induction text generalizing depth inner with
  | nil => simp [closeBrace?] at closed
  | cons c rest ih =>
      unfold closeBrace? at closed
      split at closed
      next closer =>
        cases depth with
        | zero =>
            obtain ⟨rfl, rfl⟩ := Prod.mk.inj (Option.some.inj closed)
            rw [closer, List.nil_append]
        | succ outer =>
            obtain ⟨⟨deeper, tail⟩, found, same⟩ := Option.map_eq_some_iff.mp closed
            obtain ⟨rfl, rfl⟩ := Prod.mk.inj same
            rw [ih found, List.cons_append]
      next =>
        obtain ⟨⟨deeper, tail⟩, found, same⟩ := Option.map_eq_some_iff.mp closed
        obtain ⟨rfl, rfl⟩ := Prod.mk.inj same
        rw [ih found, List.cons_append]

theorem append_of_firstOutsideAngles? {target : Char → Bool} {depth : Nat} {previous : Option Char}
    {text before after : List Char} {c : Char}
    (found : firstOutsideAngles? target depth previous text = some (before, c, after)) :
    text = before ++ c :: after ∧ target c = true := by
  induction text generalizing depth previous before with
  | nil => simp [firstOutsideAngles?] at found
  | cons d rest ih =>
      have onward {depth : Nat}
          {longer : List Char × Char × List Char → List Char × Char × List Char}
          (adds : ∀ inner e tail, longer (inner, e, tail) = (d :: inner, e, tail))
          (later : (firstOutsideAngles? target depth (some d) rest).map longer =
            some (before, c, after)) :
          d :: rest = before ++ c :: after ∧ target c = true := by
        obtain ⟨⟨inner, e, tail⟩, deeper, same⟩ := Option.map_eq_some_iff.mp later
        simp only [adds, Prod.mk.injEq] at same
        obtain ⟨rfl, rfl, rfl⟩ := same
        obtain ⟨split, hit⟩ := ih deeper
        exact ⟨by rw [split, List.cons_append], hit⟩
      simp only [firstOutsideAngles?] at found
      split at found
      · exact onward (fun _ _ _ => rfl) found
      · split at found
        · exact onward (fun _ _ _ => rfl) found
        · split at found
          next hit =>
            simp only [Option.some.injEq, Prod.mk.injEq] at found
            obtain ⟨rfl, rfl, rfl⟩ := found
            exact ⟨rfl, (Bool.and_eq_true_iff.mp hit).1⟩
          next => exact onward (fun _ _ _ => rfl) found

theorem hit_of_stopFrom? {hit : Visit → Bool} {stack : List Bracket} {previous : Option Char}
    {text : List Char} {stop : Stop} (found : stopFrom? hit stack previous text = some stop) :
    hit stop.visit = true := by
  induction text generalizing stack previous stop with
  | nil => contradiction
  | cons c rest ih =>
      rw [stopFrom?] at found
      split at found
      next here =>
        obtain rfl := Option.some.inj found
        exact here
      next =>
        obtain ⟨inner, inner_found, rfl⟩ := Option.map_eq_some_iff.mp found
        have inside := ih inner_found
        exact inside

theorem append_of_firstGroup {text before inner after : List Char}
    (found : firstGroup text = .found before inner after) :
    text = before ++ '(' :: (inner ++ ')' :: after) := by
  unfold firstGroup at found
  split at found
  · contradiction
  next head opened =>
    split at found
    · contradiction
    next right_opener =>
      split at found
      · contradiction
      next tail closed =>
        split at found
        · contradiction
        next right_closer =>
          obtain ⟨rfl, rfl, rfl⟩ := GroupSearch.found.inj found
          have opener := hit_of_stopFrom? opened
          have closer := hit_of_stopFrom? closed
          simp only [right_opener, right_closer, Bool.false_or, Bool.and_eq_true,
            decide_eq_true_eq] at opener closer
          rw [append_of_stopFrom? opened, append_of_stopFrom? closed, opener.1, closer.1]

theorem append_of_bodyStart? {text : List Char} {stop : Stop}
    (found : bodyStart? text = some stop) :
    text = stop.before ++ stop.visit.char :: stop.after ∧
      (stop.visit.char = '{' ∨ stop.visit.char = ';') := by
  have opener := hit_of_stopFrom? found
  rw [Bool.and_eq_true, Bool.or_eq_true, decide_eq_true_eq, decide_eq_true_eq] at opener
  exact ⟨append_of_stopFrom? found, opener.1⟩

theorem closingLine?_lt {depth : Int} {lines : List (List Char)} {last : Nat}
    (closed : closingLine? depth lines = some last) : last < lines.length := by
  induction lines generalizing depth last with
  | nil => simp [closingLine?] at closed
  | cons line rest ih =>
      rw [closingLine?] at closed
      split at closed
      · obtain rfl := Option.some.inj closed
        simp
      · obtain ⟨below, found, rfl⟩ := Option.map_eq_some_iff.mp closed
        have bound := ih found
        simp only [List.length_cons]
        omega

theorem lineFeeds_slices (text : List Char) :
    ((slices (· = ',') text).map lineFeeds).sum = lineFeeds text := by
  have join_sum (parts : List (List Char)) :
      lineFeeds ([','].intercalate parts) = (parts.map lineFeeds).sum := by
    induction parts with
    | nil => rfl
    | cons part rest ih =>
        cases rest with
        | nil => simp
        | cons next rest =>
            rw [List.intercalate_cons_cons, lineFeeds_append, lineFeeds_append, ih]
            simp [lineFeeds]
  rw [← join_sum, intercalate_slices]

end Bracket

/-! ## Structs -/

namespace Field

theorem line_of_parse? {text : List Char} {line : Int} {field : Field}
    (read : parse? text line = some field) : field.line = line := by
  unfold parse? at read
  generalize Visibility.split (declaration text) = parts at read
  obtain ⟨visibility, rest⟩ := parts
  simp only at read
  split at read
  · contradiction
  · split at read
    · contradiction
    · obtain rfl := Option.some.inj read
      rfl

/-- Fields stand in the order of their lines, and on lines of the text they are read from. -/
theorem lines_readFrom (line : Nat) (parts : List (List Char)) :
    (∀ field ∈ readFrom line parts,
      (line : Int) ≤ field.line ∧ field.line ≤ line + (parts.map lineFeeds).sum) ∧
      (readFrom line parts).Pairwise fun a b => a.line ≤ b.line := by
  induction parts generalizing line with
  | nil => simp [readFrom]
  | cons part rest ih =>
      obtain ⟨below, ordered⟩ := ih (line + lineFeeds part)
      have lead_le : lineFeeds (part.takeWhile isBlank) ≤ lineFeeds part :=
        lineFeeds_le_of_prefix (List.takeWhile_prefix isBlank)
      have head_line : ∀ field ∈ (parse? part
          ((line + lineFeeds (part.takeWhile isBlank) : Nat) : Int)).toList,
          field.line = line + lineFeeds (part.takeWhile isBlank) := by
        intro field mem
        rw [Option.mem_toList] at mem
        simpa using line_of_parse? mem
      rw [readFrom, List.map_cons, List.sum_cons]
      refine ⟨?_, List.pairwise_append.mpr ⟨?_, ordered, ?_⟩⟩
      · intro field mem
        rcases List.mem_append.mp mem with mem | mem
        · have same := head_line field mem
          omega
        · have bounds := below field mem
          omega
      · cases parse? part ((line + lineFeeds (part.takeWhile isBlank) : Nat) : Int) <;> simp
      · intro field mem other later
        have same := head_line field mem
        have bounds := below other later
        omega

theorem lines_readAll (line : Nat) (body : List Char) :
    (∀ field ∈ readAll line body, (line : Int) ≤ field.line ∧ field.line ≤ line + lineFeeds body) ∧
      (readAll line body).Pairwise fun a b => a.line ≤ b.line := by
  have bounds := lines_readFrom line (Bracket.slices (· = ',') body)
  rwa [Bracket.lineFeeds_slices] at bounds

end Field

namespace Struct

theorem body_eq_ok {text : List Char} {line last : Nat} {fields : List Field}
    (read : body text line = .ok (fields, last)) :
    last ≤ lineFeeds text ∧
      (∀ field ∈ fields, (line : Int) ≤ field.line ∧ field.line ≤ line + last) ∧
      fields.Pairwise fun a b => a.line ≤ b.line := by
  unfold body at read
  split at read
  · contradiction
  next before opener after found =>
    obtain ⟨rfl, -⟩ := Bracket.append_of_firstOutsideAngles? found
    have after_le : lineFeeds after ≤ lineFeeds (opener :: after) := List.count_le_count_cons
    simp only at read
    split at read
    next =>
      split at read
      · contradiction
      next inner tail closed =>
        simp only [Except.ok.injEq, Prod.mk.injEq] at read
        obtain ⟨rfl, rfl⟩ := read
        obtain ⟨inside, ordered⟩ := Field.lines_readAll (line + lineFeeds before) inner
        have inner_le : lineFeeds inner ≤ lineFeeds after := by
          rw [Bracket.append_of_closeBrace? closed, lineFeeds_append]
          omega
        refine ⟨by rw [lineFeeds_append]; omega, ?_, ordered⟩
        intro field mem
        have bounds := inside field mem
        omega
    next =>
      split at read
      next =>
        split at read
        · contradiction
        next tuple closer tail closed =>
          simp only [Except.ok.injEq, Prod.mk.injEq] at read
          obtain ⟨rfl, rfl⟩ := read
          have tuple_le : lineFeeds tuple ≤ lineFeeds after := by
            rw [(Bracket.append_of_firstOutsideAngles? closed).1, lineFeeds_append]
            omega
          exact ⟨by rw [lineFeeds_append]; omega, by simp, List.Pairwise.nil⟩
      next =>
        simp only [Except.ok.injEq, Prod.mk.injEq] at read
        obtain ⟨rfl, rfl⟩ := read
        exact ⟨by rw [lineFeeds_append]; omega, by simp, List.Pairwise.nil⟩

theorem read_eq_ok {text : List Char} {found : Match} {first : Line} {later : List Line}
    {struct : Struct} {last : Nat} (done : read text found first later = .ok (struct, last)) :
    ∃ fields,
      body (Line.codeText (text.drop found.stop.offset) later) first.number = .ok (fields, last) ∧
      struct = ⟨String.ofList found.captured, fields, first.number,
        Line.rawThrough (first :: later) last⟩ := by
  obtain ⟨⟨fields, stop⟩, inside, result⟩ := bind_eq_ok_iff.mp done
  obtain ⟨rfl, rfl⟩ := Prod.mk.inj (Except.ok.inj result)
  exact ⟨fields, inside, rfl⟩

end Struct

/-! ## Functions -/

namespace Function

/-- The opener of a signature is the brace or the semicolon at the offset that is found. -/
theorem Signature.find_eq_ok {name : String} {line : Nat} {text : List Char}
    {signature : Signature} (found : find name line text = .ok signature) :
    (signature.opener = '{' ∨ signature.opener = ';') ∧
      ∃ front back, front.length = signature.bodyOffset ∧
        text = front ++ signature.opener :: back := by
  unfold find at found
  split at found
  · contradiction
  · contradiction
  next before params after grouped =>
    split at found
    · contradiction
    next stop started =>
      obtain rfl := Except.ok.inj found
      obtain ⟨after_eq, opener⟩ := Bracket.append_of_bodyStart? started
      refine ⟨opener, before ++ '(' :: (params ++ ')' :: stop.before), stop.after, ?_, ?_⟩
      · simp only [List.length_append, List.length_cons]
        omega
      · rw [Bracket.append_of_firstGroup grouped]
        nth_rewrite 1 [after_eq]
        simp only [List.append_assoc, List.cons_append]

theorem lastLine_lt {codes : List (List Char)} {line offset last : Nat} {opener : Char}
    (feedless : ∀ code ∈ codes, '\n' ∉ code) (nonempty : codes ≠ [])
    (found : lastLine codes line offset opener = .ok last) : last < codes.length := by
  obtain ⟨first, rest, rfl⟩ := List.exists_cons_of_ne_nil nonempty
  rw [List.forall_mem_cons] at feedless
  have body_le : lineFeeds ((joinLines (first :: rest)).take offset).reverse ≤ rest.length := by
    rw [lineFeeds, List.count_reverse, ← lineFeeds_joinLines feedless.1 feedless.2]
    exact lineFeeds_le_of_prefix (List.take_prefix offset _)
  unfold lastLine at found
  simp only [Place.line] at found
  generalize lineFeeds ((joinLines (first :: rest)).take offset).reverse = bodyLine at body_le found
  rw [List.length_cons]
  split at found
  next =>
    split at found
    · contradiction
    next below closed =>
      obtain rfl := Except.ok.inj found
      have below_lt := Bracket.closingLine?_lt closed
      split at below_lt
      next => simp at below_lt
      next first' rest' dropped =>
        have lengths := congrArg List.length dropped
        simp only [List.length_drop, List.length_cons] at lengths below_lt
        omega
  next =>
    obtain rfl := Except.ok.inj found
    omega

theorem readFound_eq_ok {target text : List Char} {found : Match} {first : Line}
    {later : List Line} {function : Function} {last : Nat}
    (done : readFound target text found first later = .ok (function, last)) :
    ∃ signature,
      Signature.find (String.ofList found.captured) first.number
        ((joinLines (text :: later.map (·.code))).drop found.stop.offset) = .ok signature ∧
      lastLine (text :: later.map (·.code)) first.number
        (found.stop.offset + signature.bodyOffset) signature.opener = .ok last ∧
      function = {
        name := String.ofList found.captured
        params := Param.readAll signature.params
        returnType := (returnType? signature.tail).map String.ofList
        visibility := (Visibility.split text).1
        isConstructor := isSetUp found.captured (returnType? signature.tail) target
        line := first.number
        definition := Line.rawThrough (first :: later) last } := by
  obtain ⟨signature, signed, done⟩ := bind_eq_ok_iff.mp done
  obtain ⟨stop, closed, result⟩ := bind_eq_ok_iff.mp done
  obtain ⟨rfl, rfl⟩ := Prod.mk.inj (Except.ok.inj result)
  exact ⟨signature, signed, closed, rfl⟩

theorem read_eq_ok {target item : List Char} {first : Line} {later : List Line}
    {function : Function} {last : Nat}
    (done : read target item first later = .ok (function, last)) :
    ∃ found, header.match? (first.codeFrom item) = some found ∧
      readFound target (first.codeFrom item) found first later = .ok (function, last) := by
  unfold read at done
  simp only at done
  split at done
  · contradiction
  next found matched =>
    cases result : readFound target (first.codeFrom item) found first later with
    | error fault => simp [result, Except.mapError] at done
    | ok value =>
        rw [result] at done
        obtain rfl := Except.ok.inj done
        exact ⟨found, matched, result⟩

end Function

/-! ## Blocks -/

namespace ImplBlock

theorem read_eq_ok {item : List Char} {first : Line} {later : List Line} {block : ImplBlock}
    {last : Nat} (done : read item first later = .ok (block, last)) :
    ∃ before after inner tail functions,
      Bracket.firstOutsideAngles? (fun c => c = '{' || c = ';') 0 none
        (Line.codeText (first.codeFrom item) later) = some (before, '{', after) ∧
      Bracket.closeBrace? 0 after = some (inner, tail) ∧
      readFunctions (targetOf before) 0 0
        ((later.drop (lineFeeds before)).take (lineFeeds inner)) = .ok functions ∧
      last = lineFeeds before + lineFeeds inner ∧
      block = ⟨String.ofList (targetOf before), functions, first.number,
        Line.rawThrough (first :: later) last⟩ := by
  unfold read at done
  simp only at done
  split at done
  · contradiction
  next before opener after found =>
    split at done
    · contradiction
    next not_semicolon =>
      have opener_eq : opener = '{' := by
        have hit := (Bracket.append_of_firstOutsideAngles? found).2
        simpa [not_semicolon] using hit
      subst opener_eq
      split at done
      · contradiction
      next inner tail closed =>
        obtain ⟨functions, listed, result⟩ := bind_eq_ok_iff.mp done
        obtain ⟨rfl, rfl⟩ := Prod.mk.inj (Except.ok.inj result)
        exact ⟨before, after, inner, tail, functions, found, closed, listed, rfl, rfl⟩

end ImplBlock
end SorobanLint
