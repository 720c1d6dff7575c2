import SorobanLint.Proofs.Attributes
import SorobanLint.Proofs.LastLine
import SorobanLint.Proofs.Render.Source
import SorobanLint.Proofs.Unbroken.Header
import SorobanLint.Proofs.Unbroken.Text

/-!
# Functions on one line

How a function is broken over lines does not matter: put on one line, it has the same name,
parameters, return type and visibility, and it sets up the contract or not as before
(`Function.parse?_intercalate`).
-/

namespace SorobanLint

open Text

namespace Function

/-! ## Signatures -/

/-- The return type does not depend on the lines on which it stands. -/
theorem returnType?_unbroken (text : List Char) :
    returnType? (unbroken text) = returnType? text := by
  have word : ∀ c ∈ "where".toList, isWord c = true := forall_mem_of_all rfl
  have same (behind : List Char) :
      squeeze ((Pattern.whole "where".toList).textBefore (unbroken behind)) =
        squeeze ((Pattern.whole "where".toList).textBefore behind) := by
    rw [Pattern.textBefore_whole_unbroken word (by decide), squeeze_unbroken]
  rw [returnType?, trimStart_unbroken, returnType?]
  generalize trimStart text = start
  by_cases arrow : ∃ behind, start = '-' :: '>' :: behind
  · obtain ⟨behind, rfl⟩ := arrow
    have arrow_eq : unbroken ('-' :: '>' :: behind) = '-' :: '>' :: unbroken behind := rfl
    simp only [arrow_eq, same]
  · split
    next behind unbroken_eq =>
      refine absurd ?_ arrow
      rcases start with _ | ⟨c, _ | ⟨d, rest⟩⟩
      · simp at unbroken_eq
      · simp at unbroken_eq
      · obtain ⟨dash, tail_eq⟩ := List.cons.inj unbroken_eq
        obtain ⟨angle, -⟩ := List.cons.inj tail_eq
        exact ⟨rest, by rw [eq_of_flat dash (by decide), eq_of_flat angle (by decide)]⟩
    next =>
      split
      · exact absurd ⟨_, rfl⟩ arrow
      · rfl

theorem readAll_unbroken (list : List Char) :
    Param.readAll (unbroken list) = Param.readAll list := by
  have same : Param.parse? ∘ unbroken = Param.parse? := by
    funext entry
    change Param.parse? (unbroken entry) = Param.parse? entry
    rw [Param.parse?, squeeze_unbroken, Param.parse?]
  rw [Param.readAll, Bracket.splitCommas_unbroken, List.filterMap_map, same, Param.readAll]

/-- A signature that is found is found on one line, too. -/
theorem Signature.find_unbroken {name : String} {line : Nat} {text : List Char}
    {signature : Signature} (found : find name line text = .ok signature) :
    find name line (unbroken text) =
      .ok { signature with
        params := unbroken signature.params
        tail := unbroken signature.tail } := by
  have solid := opener_ne_newline found
  unfold find at found
  split at found
  · contradiction
  · contradiction
  next before params after grouped =>
    split at found
    · contradiction
    next stop started =>
      obtain rfl := Except.ok.inj found
      have opener_eq : flat stop.visit.char = stop.visit.char := flat_of_ne solid
      have started_flat := Bracket.bodyStart?_unbroken after
      rw [started, Option.map_some] at started_flat
      rw [find, Bracket.firstGroup_unbroken grouped]
      dsimp only
      rw [started_flat]
      simp only [Stop.unbroken, Visit.flat, opener_eq, length_unbroken]

/-- On one line, a function that has an end ends on that line. -/
theorem lastLine_unbroken {codes : List (List Char)} {line offset last : Nat} {opener : Char}
    {front back : List Char} (feedless : ∀ code ∈ codes, '\n' ∉ code)
    (whole : joinLines codes = front ++ opener :: back) (solid : opener ≠ '\n')
    (front_length : front.length = offset)
    (closed : lastLine codes line offset opener = .ok last) :
    lastLine [unbroken (joinLines codes)] line offset opener = .ok 0 := by
  have flat_feedless : ∀ code ∈ [unbroken (joinLines codes)], '\n' ∉ code :=
    List.forall_mem_singleton.mpr (feedless_unbroken _)
  have flat_whole : joinLines [unbroken (joinLines codes)] =
      unbroken front ++ opener :: unbroken back := by
    rw [joinLines_singleton, whole, unbroken_append, unbroken_cons, flat_of_ne solid]
  have no_feeds (s : List Char) : lineFeeds (unbroken s) = 0 :=
    lineFeeds_eq_zero (feedless_unbroken s)
  rw [← front_length, lastLine_eq_closeBrace? feedless whole solid] at closed
  rw [← front_length, ← length_unbroken front,
    lastLine_eq_closeBrace? flat_feedless flat_whole solid, Bracket.closeBrace?_unbroken]
  split
  next braced =>
    rw [if_pos braced] at closed
    cases body : Bracket.closeBrace? 0 back with
    | none => simp [body] at closed
    | some parts =>
        obtain ⟨inner, after⟩ := parts
        simp only [Option.map_some, no_feeds]
  next => rw [no_feeds]

/-! ## Functions -/

theorem item_append {line whole : Line} {more : List Char}
    (code_eq : whole.code = line.code ++ more) (heads : header.isHeadOf line.item = true)
    (parted : ∀ c ∈ more.head?, c = ' ') :
    header.isHeadOf whole.item = true ∧
      whole.codeFrom whole.item = line.codeFrom line.item ++ more := by
  have item_nonempty : line.item ≠ [] := by
    intro nothing
    rw [nothing] at heads
    exact absurd heads (by decide)
  have nonempty := Line.item_ne_nil_iff.mp item_nonempty
  obtain ⟨codeFrom_eq, item_eq⟩ := Line.item_eq nonempty
  have blank : ∀ c ∈ more.head?, isBlank c = true := by
    intro c mem
    rw [parted c mem]
    rfl
  have peeled := Attribute.peelFrom_append (Attribute.closed_of_rest nonempty) fun _ => blank
  have whole_rest : (Attribute.peel whole.code).rest = line.codeFrom line.item ++ more := by
    rw [codeFrom_eq, code_eq, Attribute.peel, peeled.trans (if_neg nonempty)]
    rfl
  have whole_nonempty : (Attribute.peel whole.code).rest ≠ [] := by
    rw [whole_rest, codeFrom_eq]
    exact List.append_ne_nil_of_left_ne_nil nonempty more
  obtain ⟨whole_eq, whole_item⟩ := Line.item_eq whole_nonempty
  refine ⟨?_, whole_eq.trans whole_rest⟩
  obtain ⟨behind, split_eq⟩ := trimEnd_prefix_append (Attribute.peel line.code).rest more
  rw [whole_item, whole_rest, codeFrom_eq, ← split_eq, ← item_eq]
  exact Pattern.isHeadOf_append rfl heads behind

/-- Behind a header that is matched alike on one line, the function is the same but for its
text. -/
theorem readFound_unbroken {target text : List Char} {found flat_found : Match}
    {first whole : Line} {later : List Line} {function : Function} {last : Nat}
    (feedless : ∀ code ∈ text :: later.map (·.code), '\n' ∉ code)
    (name_le : found.stop.offset ≤ text.length) (captured_eq : flat_found.captured = found.captured)
    (offset_eq : flat_found.stop.offset = found.stop.offset)
    (visibility_eq : (Visibility.split (unbroken (joinLines (text :: later.map (·.code))))).1 =
      (Visibility.split text).1)
    (number_eq : whole.number = first.number)
    (done : readFound target text found first later = .ok (function, last)) :
    readFound target (unbroken (joinLines (text :: later.map (·.code)))) flat_found whole [] =
      .ok ({ function with definition := String.ofList whole.raw }, 0) := by
  obtain ⟨signature, signed, closed, rfl⟩ := readFound_eq_ok done
  have within : found.stop.offset ≤ (joinLines (text :: later.map (·.code))).length := by
    rw [joinLines_cons, List.length_append]
    omega
  generalize text :: later.map (·.code) = codes at *
  obtain ⟨-, front, back, front_length, behind_eq⟩ := Signature.find_eq_ok signed
  have whole_eq : joinLines codes =
      (joinLines codes).take found.stop.offset ++ front ++ signature.opener :: back := by
    rw [List.append_assoc, ← behind_eq, List.take_append_drop]
  have lead_length : ((joinLines codes).take found.stop.offset ++ front).length =
      found.stop.offset + signature.bodyOffset := by
    rw [List.length_append, List.length_take_of_le within, front_length]
  have flat_closed := lastLine_unbroken feedless whole_eq
    (Signature.opener_ne_newline signed) lead_length closed
  have flat_signed := Signature.find_unbroken signed
  rw [unbroken, List.map_drop, ← unbroken] at flat_signed
  have raw_eq : Line.rawThrough [whole] 0 = String.ofList whole.raw := by simp [Line.rawThrough]
  rw [readFound]
  simp only [List.map_nil, joinLines_singleton, captured_eq, offset_eq, number_eq, flat_signed,
    flat_closed, returnType?_unbroken, readAll_unbroken, visibility_eq, raw_eq, bind, Except.bind]
  rfl

/-- A function that is read from several lines of code is read from the same code on one line. -/
theorem read_unbroken {target : List Char} {line whole : Line} {later : List Line}
    {function : Function} {last : Nat}
    (feedless : ∀ code ∈ line.code :: later.map (·.code), '\n' ∉ code)
    (code_eq : whole.code = unbroken (joinLines (line.code :: later.map (·.code))))
    (number_eq : whole.number = line.number) (no_quote : '"' ∉ whole.code)
    (heads : header.isHeadOf line.item = true)
    (done : read target line.item line later = .ok (function, last)) :
    header.isHeadOf whole.item = true ∧ read target whole.item whole [] =
      .ok ({ function with definition := String.ofList whole.raw }, 0) := by
  obtain ⟨found, matched, done⟩ := read_eq_ok done
  rw [List.forall_mem_cons] at feedless
  have text_feedless := Line.feedless_codeFrom feedless.1 line.item
  let more := unbroken ((later.map (·.code)).flatMap ('\n' :: ·))
  have append_eq : whole.code = line.code ++ more := by
    rw [code_eq, joinLines_cons, unbroken_append, unbroken_of_feedless feedless.1]
  have joined_eq : unbroken (joinLines (line.codeFrom line.item :: later.map (·.code))) =
      line.codeFrom line.item ++ more := by
    rw [joinLines_cons, unbroken_append, unbroken_of_feedless text_feedless]
  have parted : ∀ c ∈ more.head?, c = ' ' := by
    cases later with
    | nil => simp [more]
    | cons next later =>
        rintro c ⟨⟩
        rfl
  obtain ⟨whole_heads, whole_text⟩ := item_append append_eq heads parted
  obtain ⟨attributes, -, -, -, line_eq⟩ := line.codeFrom_eq_append line.item_suffix_trim
  have text_no_quote : '"' ∉ line.codeFrom line.item ++ more := by
    rw [append_eq, line_eq, List.append_assoc, List.mem_append, not_or] at no_quote
    exact no_quote.2
  obtain ⟨flat_found, flat_matched, captured_eq, offset_eq, visibility_eq⟩ :=
    header_append matched text_no_quote parted
  have flat_done := readFound_unbroken (List.forall_mem_cons.mpr ⟨text_feedless, feedless.2⟩)
    (Pattern.offset_le_of_match? matched) captured_eq offset_eq
    (by rw [joined_eq, visibility_eq]) number_eq done
  rw [joined_eq] at flat_done
  refine ⟨whole_heads, ?_⟩
  rw [read, whole_text]
  simp only [flat_matched, flat_done]
  rfl

theorem parse?_eq_some {lines : List (List Char)} {index : Nat} {target : String}
    {function : Function} (parsed : parse? lines index target = some (.ok (some function))) :
    ∃ first later last, (Line.ofTexts lines).drop index = first :: later ∧
      header.isHeadOf first.item = true ∧
      read target.toList first.item first later = .ok (function, last) := by
  unfold parse? at parsed
  split at parsed
  · contradiction
  next first later cut =>
    split at parsed
    next heads =>
      cases done : read target.toList first.item first later with
      | error fault => simp [done, Except.map] at parsed
      | ok result =>
          obtain ⟨other, last⟩ := result
          simp only [done, Except.map, Option.some.injEq, Except.ok.injEq] at parsed
          exact ⟨first, later, last, cut, heads, by rw [done, parsed]⟩
    next => simp at parsed

/-- A function without comments and literals is the same, but for its text, when its lines are
joined by spaces. -/
theorem parse?_intercalate {lines : List (List Char)} {target : String} {function : Function}
    (bare : ∀ text ∈ lines, ∀ c ∈ text, c ≠ '/' ∧ c ≠ '"' ∧ c ≠ '\'' ∧ c ≠ '\n')
    (parsed : parse? lines 0 target = some (.ok (some function))) :
    parse? [[' '].intercalate lines] 0 target = some (.ok (some
      { function with definition := String.ofList ([' '].intercalate lines) })) := by
  have feedless : ∀ text ∈ lines, '\n' ∉ text :=
    fun text text_mem mem => (bare text text_mem _ mem).2.2.2 rfl
  have plain_of_bare {lines : List (List Char)}
      (bare : ∀ text ∈ lines, ∀ c ∈ text, c ≠ '/' ∧ c ≠ '"' ∧ c ≠ '\'' ∧ c ≠ '\n') :
      Line.ofTexts lines = Line.plain 1 lines := by
    refine Line.ofTexts_of_forall fun text text_mem c mem => ?_
    obtain ⟨no_slash, no_quote, no_tick, -⟩ := bare text text_mem c mem
    exact ⟨no_slash, no_quote, no_tick⟩
  have flat_eq := unbroken_joinLines feedless
  have flat_bare : ∀ text ∈ [[' '].intercalate lines], ∀ c ∈ text,
      c ≠ '/' ∧ c ≠ '"' ∧ c ≠ '\'' ∧ c ≠ '\n' := by
    rw [List.forall_mem_singleton, ← flat_eq]
    exact forall_mem_unbroken_joinLines bare (by decide)
  have no_quote : '"' ∉ [' '].intercalate lines :=
    fun mem => (flat_bare _ (List.mem_singleton_self _) _ mem).2.1 rfl
  obtain ⟨first, later, last, cut, heads, done⟩ := parse?_eq_some parsed
  rw [plain_of_bare bare, List.drop_zero] at cut
  have codes_eq : first.code :: later.map (·.code) = lines := by
    rw [← Line.map_code_plain 1 lines, cut, List.map_cons]
  let whole : Line := ⟨1, [' '].intercalate lines, [' '].intercalate lines⟩
  have number_eq : whole.number = first.number := by
    cases lines with
    | nil => contradiction
    | cons head rest => rw [← (List.cons.inj cut).1]
  have code_eq : whole.code = unbroken (joinLines (first.code :: later.map (·.code))) := by
    rw [codes_eq, flat_eq]
  rw [← codes_eq] at feedless
  obtain ⟨whole_heads, whole_done⟩ :=
    read_unbroken feedless code_eq number_eq no_quote heads done
  have flat_cut : (Line.plain 1 [[' '].intercalate lines]).drop 0 = [whole] := rfl
  rw [parse?, plain_of_bare flat_bare, flat_cut]
  dsimp only
  rw [if_pos whole_heads, whole_done]
  rfl

/-- Attributes, nested generics and a return type on lines of their own. -/
theorem parse?_intercalate_generics :
    let lines := ["#[a]  pub fn f<T>(".toList, "  env: Env,".toList,
      "  m: Map<Address,".toList, "    Vec<(u8, u8)>>,".toList, ") -> Result<".toList,
      "  Token, u8>".toList, "where T: A \x7b".toList, "  g()".toList, "\x7d".toList]
    let function : Function :=
      ⟨"f", [⟨"env", "Env"⟩, ⟨"m", "Map<Address, Vec<(u8, u8)>>"⟩], some "Result< Token, u8>",
        .pub, true, 1, String.ofList (joinLines lines)⟩
    (∀ text ∈ lines, ∀ c ∈ text, c ≠ '/' ∧ c ≠ '"' ∧ c ≠ '\'' ∧ c ≠ '\n') ∧
      parse? lines 0 "Token" = some (.ok (some function)) ∧
      parse? [[' '].intercalate lines] 0 "Token" = some (.ok (some
        { function with definition := String.ofList ([' '].intercalate lines) })) := by
  intro lines function
  have all_bare : (lines.all fun text =>
      text.all fun c => c ≠ '/' ∧ c ≠ '"' ∧ c ≠ '\'' ∧ c ≠ '\n') = true := by
    decide +kernel
  have bare : ∀ text ∈ lines, ∀ c ∈ text, c ≠ '/' ∧ c ≠ '"' ∧ c ≠ '\'' ∧ c ≠ '\n' :=
    fun text mem => forall_mem_of_all (List.all_eq_true.mp all_bare text mem)
  have parsed : parse? lines 0 "Token" = some (.ok (some function)) := by decide +kernel
  exact ⟨bare, parsed, parse?_intercalate bare parsed⟩

end Function
end SorobanLint
