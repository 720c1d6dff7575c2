import SorobanLint.Contract.ImplBlock
import SorobanLint.Proofs.Lines

/-!
# Nested braces

Braces fit at a depth if no closing brace of the text takes the depth below zero.  The search for
the brace that closes a block passes over such a text, in one piece or line by line, and goes on at
the depth that the text leaves open (`closeBrace?_append`, `closingLine?_append`).
-/

namespace SorobanLint

open Text ImplBlock

namespace Bracket

variable {depth : Nat} {c : Char} {s t text : List Char} {lines : List (List Char)}

/-- The braces of a text fit at the given depth: no front of the text closes more braces than are
open before it and opened by it. -/
def BracesFit (depth : Nat) (text : List Char) : Prop :=
  ∀ front, front <+: text → front.count '}' ≤ depth + front.count '{'

/-- The braces of a text pair up. -/
structure Nested (text : List Char) : Prop where
  fit : BracesFit 0 text
  settled : text.count '}' = text.count '{'

theorem depthAfter_append (depth : Nat) (fit : BracesFit depth s) (t : List Char) :
    depthAfter depth (s ++ t) = depthAfter (depthAfter depth s) t := by
  have fits := fit s (List.prefix_refl s)
  simp only [depthAfter, List.count_append]
  omega

theorem bracesFit_append :
    BracesFit depth (s ++ t) ↔ BracesFit depth s ∧ BracesFit (depthAfter depth s) t := by
  constructor
  · intro fit
    refine ⟨fun front leading => fit front (leading.trans (List.prefix_append s t)), ?_⟩
    intro front leading
    have whole := fit (s ++ front) ((List.prefix_append_right_inj s).mpr leading)
    rw [List.count_append, List.count_append] at whole
    rw [depthAfter]
    omega
  · rintro ⟨s_fit, t_fit⟩ front leading
    rcases List.prefix_or_prefix_of_prefix leading (List.prefix_append s t) with
      inside | ⟨behind, rfl⟩
    · exact s_fit front inside
    · have s_fits := s_fit s (List.prefix_refl s)
      have fits := t_fit behind ((List.prefix_append_right_inj s).mp leading)
      rw [depthAfter] at fits
      rw [List.count_append, List.count_append]
      omega

theorem bracesFit_singleton : BracesFit depth [c] ↔ (c = '}' → 0 < depth) := by
  constructor
  · rintro fit rfl
    have fits := fit ['}'] (List.prefix_refl _)
    simpa [Nat.one_le_iff_ne_zero, Nat.pos_iff_ne_zero] using fits
  · intro positive front leading
    rcases List.prefix_cons_iff.mp leading with rfl | ⟨behind, rfl, nothing⟩
    · exact Nat.zero_le _
    · rw [List.prefix_nil.mp nothing]
      by_cases closes : c = '}'
      · subst closes
        simpa [Nat.one_le_iff_ne_zero, Nat.pos_iff_ne_zero] using positive rfl
      · simp [closes]

theorem bracesFit_cons :
    BracesFit depth (c :: t) ↔ (c = '}' → 0 < depth) ∧ BracesFit (depthAfter depth [c]) t := by
  rw [← List.singleton_append, bracesFit_append, bracesFit_singleton]

instance decidableBracesFit : (depth : Nat) → (text : List Char) → Decidable (BracesFit depth text)
  | depth, [] => .isTrue fun front leading => by simp [List.prefix_nil.mp leading]
  | depth, c :: text =>
    have := decidableBracesFit (depthAfter depth [c]) text
    decidable_of_iff _ bracesFit_cons.symm

instance (text : List Char) : Decidable (Nested text) :=
  decidable_of_iff (BracesFit 0 text ∧ text.count '}' = text.count '{')
    ⟨fun ⟨fit, settled⟩ => ⟨fit, settled⟩, fun ⟨fit, settled⟩ => ⟨fit, settled⟩⟩

theorem depthAfter_singleton (depth : Nat) (other : c ≠ '}') :
    depthAfter depth [c] = if c = '{' then depth + 1 else depth := by
  by_cases opens : c = '{'
  · simp [depthAfter, opens]
  · simp [depthAfter, opens, other]

theorem closeBrace?_cons_of_ne (depth : Nat) (other : c ≠ '}') (rest : List Char) :
    closeBrace? depth (c :: rest) =
      (closeBrace? (depthAfter depth [c]) rest).map fun (inner, after) => (c :: inner, after) := by
  rw [depthAfter_singleton depth other]
  conv => lhs; unfold closeBrace?
  exact if_neg other

theorem closeBrace?_cons_close (outer : Nat) (rest : List Char) :
    closeBrace? (outer + 1) ('}' :: rest) =
      (closeBrace? outer rest).map fun (inner, after) => ('}' :: inner, after) := by
  conv => lhs; unfold closeBrace?
  rfl

/-- The search for a closing brace passes over a text whose braces fit. -/
theorem closeBrace?_append (fit : BracesFit depth s) (t : List Char) :
    closeBrace? depth (s ++ t) =
      (closeBrace? (depthAfter depth s) t).map fun (inner, after) => (s ++ inner, after) := by
  induction s generalizing depth with
  | nil => simp [depthAfter]
  | cons c s ih =>
      obtain ⟨positive, onward⟩ := bracesFit_cons.mp fit
      have behind := depthAfter_append depth (bracesFit_singleton.mpr positive) s
      rw [List.singleton_append] at behind
      rw [List.cons_append, behind]
      by_cases closes : c = '}'
      · obtain ⟨outer, rfl⟩ := Nat.exists_eq_succ_of_ne_zero (Nat.ne_of_gt (positive closes))
        subst closes
        have depth_eq : depthAfter (outer + 1) ['}'] = outer := by simp [depthAfter]
        rw [depth_eq] at onward ⊢
        rw [Nat.succ_eq_add_one, closeBrace?_cons_close, ih onward, Option.map_map]
        rfl
      · rw [closeBrace?_cons_of_ne depth closes, ih onward, Option.map_map]
        rfl

/-- The depth behind a line whose braces fit inside an outer brace. -/
theorem depthAfter?_eq (fit : BracesFit depth text) :
    depthAfter? (depth + 1) text = some ((depthAfter depth text : Int) + 1) := by
  -- The search counts one brace more than the text: the one in front that it looks to close.
  induction text generalizing depth with
  | nil => simp [depthAfter?, depthAfter]
  | cons c text ih =>
      obtain ⟨positive, onward⟩ := bracesFit_cons.mp fit
      have behind := depthAfter_append depth (bracesFit_singleton.mpr positive) text
      rw [List.singleton_append] at behind
      rw [behind, ← ih onward, depthAfter?]
      by_cases opens : c = '{'
      · subst opens
        simp [depthAfter]
      · by_cases closes : c = '}'
        · have open_before := positive closes
          subst closes
          have inner : ((depth : Int) + 1 = 1) = False := by simp; omega
          have depth_eq : ((depthAfter depth ['}'] : Nat) : Int) + 1 = (depth : Int) + 1 - 1 := by
            simp [depthAfter]
            omega
          simp [inner, depth_eq]
        · simp [depthAfter, opens, closes]

/-- The search for a closing line passes over lines whose braces fit inside an outer brace. -/
theorem closingLine?_append (fit : BracesFit depth lines.flatten) (rest : List (List Char)) :
    closingLine? (depth + 1) (lines ++ rest) =
      (closingLine? ((depthAfter depth lines.flatten : Int) + 1) rest).map (· + lines.length) := by
  induction lines generalizing depth with
  | nil => simp [depthAfter]
  | cons line lines ih =>
      rw [List.flatten_cons, bracesFit_append] at fit
      rw [List.flatten_cons, depthAfter_append depth fit.1, List.cons_append, closingLine?,
        depthAfter?_eq fit.1]
      simp only [ih fit.2, Option.map_map]
      rfl

/-! ## Braces alone -/

/-- The braces of a text. -/
def bracesOf (text : List Char) : List Char :=
  text.filter fun c => c = '{' || c = '}'

@[simp]
theorem bracesOf_nil : bracesOf [] = [] := rfl

@[simp]
theorem bracesOf_append (s t : List Char) : bracesOf (s ++ t) = bracesOf s ++ bracesOf t :=
  List.filter_append ..

theorem bracesOf_cons_of_ne (no_opener : c ≠ '{') (no_closer : c ≠ '}') (text : List Char) :
    bracesOf (c :: text) = bracesOf text :=
  List.filter_cons_of_neg (by simp [no_opener, no_closer])

theorem bracesOf_cons_of_eq (brace : c = '{' ∨ c = '}') (text : List Char) :
    bracesOf (c :: text) = c :: bracesOf text :=
  List.filter_cons_of_pos (by simpa using brace)

theorem bracesOf_terminated (lines : List (List Char)) :
    bracesOf (terminated lines) = bracesOf lines.flatten := by
  induction lines with
  | nil => rfl
  | cons line lines ih =>
      rw [terminated_cons, List.flatten_cons, bracesOf_append, bracesOf_append,
        bracesOf_cons_of_ne (by decide) (by decide), ih]

theorem bracesOf_joinLines (lines : List (List Char)) :
    bracesOf (joinLines lines) = bracesOf lines.flatten := by
  rcases List.eq_nil_or_concat lines with rfl | ⟨above, last, rfl⟩
  · rfl
  · rw [List.concat_eq_append, joinLines_concat, List.flatten_append, bracesOf_append,
      bracesOf_append, bracesOf_terminated, List.flatten_singleton]

theorem bracesOf_dropWhile (p : Char → Bool) (braceless : ∀ c, p c = true → c ≠ '{' ∧ c ≠ '}')
    (text : List Char) : bracesOf (text.dropWhile p) = bracesOf text := by
  induction text with
  | nil => rfl
  | cons c text ih =>
      cases dropped : p c with
      | false => rw [List.dropWhile_cons_of_neg (by simp [dropped])]
      | true =>
          obtain ⟨no_opener, no_closer⟩ := braceless c dropped
          rw [List.dropWhile_cons_of_pos dropped, ih, bracesOf_cons_of_ne no_opener no_closer]

theorem bracesOf_reverse (text : List Char) : bracesOf text.reverse = (bracesOf text).reverse :=
  List.filter_reverse ..

theorem bracesOf_trim (text : List Char) : bracesOf (trim text) = bracesOf text := by
  have braceless (c : Char) (blank : isBlank c = true) : c ≠ '{' ∧ c ≠ '}' := by
    constructor <;> (rintro rfl; simp [isBlank] at blank)
  rw [trim, trimEnd, dropEndWhile, bracesOf_reverse, bracesOf_dropWhile isBlank braceless,
    bracesOf_reverse, List.reverse_reverse, trimStart, bracesOf_dropWhile isBlank braceless]

theorem depthAfter_bracesOf (depth : Nat) (text : List Char) :
    depthAfter depth (bracesOf text) = depthAfter depth text := by
  simp [depthAfter, bracesOf, List.count_filter]

theorem bracesFit_bracesOf : BracesFit depth (bracesOf text) ↔ BracesFit depth text := by
  induction text generalizing depth with
  | nil => rfl
  | cons c text ih =>
      by_cases brace : c = '{' ∨ c = '}'
      · rw [bracesOf_cons_of_eq brace, bracesFit_cons, bracesFit_cons, ih]
      · obtain ⟨no_opener, no_closer⟩ := not_or.mp brace
        have level : depthAfter depth [c] = depth := by
          rw [depthAfter_singleton depth no_closer, if_neg no_opener]
        rw [bracesOf_cons_of_ne no_opener no_closer, bracesFit_cons, level, ih]
        simp [no_closer]

theorem nested_bracesOf : Nested (bracesOf text) ↔ Nested text := by
  have counts : (bracesOf text).count '}' = (bracesOf text).count '{' ↔
      text.count '}' = text.count '{' := by
    simp [bracesOf, List.count_filter]
  constructor
  · rintro ⟨fit, settled⟩
    exact ⟨bracesFit_bracesOf.mp fit, counts.mp settled⟩
  · rintro ⟨fit, settled⟩
    exact ⟨bracesFit_bracesOf.mpr fit, counts.mpr settled⟩

/-! ## Texts whose braces pair up -/

theorem bracesFit_of_braceless (braceless : '}' ∉ text) (depth : Nat) : BracesFit depth text := by
  intro front leading
  have none_closed : front.count '}' = 0 :=
    List.count_eq_zero.mpr fun mem => braceless (leading.subset mem)
  omega

theorem BracesFit.mono {deeper : Nat} (fit : BracesFit depth text) (le : depth ≤ deeper) :
    BracesFit deeper text :=
  fun front leading => Nat.le_trans (fit front leading) (Nat.add_le_add_right le _)

namespace Nested

theorem of_braceless (no_opener : '{' ∉ text) (no_closer : '}' ∉ text) : Nested text where
  fit := bracesFit_of_braceless no_closer 0
  settled := by rw [List.count_eq_zero.mpr no_opener, List.count_eq_zero.mpr no_closer]

theorem depthAfter_eq (nested : Nested text) (depth : Nat) : depthAfter depth text = depth := by
  rw [depthAfter, nested.settled, Nat.add_sub_cancel]

theorem fit_at (nested : Nested text) (depth : Nat) : BracesFit depth text :=
  nested.fit.mono (Nat.zero_le depth)

theorem append (front : Nested s) (back : Nested t) : Nested (s ++ t) where
  fit := bracesFit_append.mpr ⟨front.fit, back.fit_at _⟩
  settled := by rw [List.count_append, List.count_append, front.settled, back.settled]

/-- Lines whose braces pair up leave the depth as it is. -/
theorem drop_flatten {n : Nat} (nested : Nested (lines.take n).flatten)
    (fit : BracesFit depth lines.flatten) :
    BracesFit depth (lines.drop n).flatten ∧
      depthAfter depth lines.flatten = depthAfter depth (lines.drop n).flatten := by
  rw [← List.take_append_drop n lines, List.flatten_append, bracesFit_append,
    nested.depthAfter_eq] at fit
  refine ⟨fit.2, ?_⟩
  nth_rewrite 1 [← List.take_append_drop n lines]
  rw [List.flatten_append, depthAfter_append depth fit.1, nested.depthAfter_eq]

theorem braces (nested : Nested text) : Nested ('{' :: text ++ ['}']) where
  fit := by
    have inner : BracesFit 1 (text ++ ['}']) := by
      rw [bracesFit_append, nested.depthAfter_eq]
      exact ⟨nested.fit_at 1, bracesFit_singleton.mpr fun _ => Nat.one_pos⟩
    exact bracesFit_cons.mpr ⟨by simp, inner⟩
  settled := by simp [nested.settled]

theorem flatMap_newline (nested : Nested lines.flatten) : Nested (lines.flatMap ('\n' :: ·)) := by
  have same : bracesOf (lines.flatMap ('\n' :: ·)) = bracesOf lines.flatten := by
    clear nested
    induction lines with
    | nil => rfl
    | cons line lines ih =>
        rw [List.flatMap_cons, List.cons_append, bracesOf_cons_of_ne (by decide) (by decide),
          List.flatten_cons, bracesOf_append, bracesOf_append, ih]
  rwa [← nested_bracesOf, same, nested_bracesOf]

theorem between_lines (nested : Nested lines.flatten) : Nested (between lines) := by
  have line_feed : Nested ['\n'] := .of_braceless (by decide) (by decide)
  exact nested.flatMap_newline.append line_feed

/-- The brace behind a text whose braces pair up closes the one in front of it. -/
theorem closeBrace?_eq (nested : Nested text) (after : List Char) :
    closeBrace? 0 (text ++ '}' :: after) = some (text, after) := by
  rw [closeBrace?_append nested.fit, nested.depthAfter_eq, closeBrace?]
  simp

end Nested

/-- The search for a closing brace passes over nothing that does not fit. -/
theorem bracesFit_of_closeBrace? {inner after : List Char}
    (closed : closeBrace? depth text = some (inner, after)) :
    BracesFit depth inner ∧ inner.count '}' = depth + inner.count '{' := by
  induction text generalizing depth inner with
  | nil => simp [closeBrace?] at closed
  | cons c rest ih =>
      by_cases closes : c = '}'
      · subst closes
        cases depth with
        | zero =>
            simp only [closeBrace?, if_true, Option.some.injEq, Prod.mk.injEq] at closed
            obtain ⟨rfl, rfl⟩ := closed
            exact ⟨bracesFit_of_braceless List.not_mem_nil 0, rfl⟩
        | succ outer =>
            rw [closeBrace?_cons_close] at closed
            obtain ⟨⟨deeper, tail⟩, found, same⟩ := Option.map_eq_some_iff.mp closed
            obtain ⟨rfl, rfl⟩ := Prod.mk.inj same
            obtain ⟨fit, settled⟩ := ih found
            have level : depthAfter (outer + 1) ['}'] = outer := by simp [depthAfter]
            rw [bracesFit_cons, level]
            refine ⟨⟨fun _ => Nat.succ_pos outer, fit⟩, ?_⟩
            rw [List.count_cons_self, List.count_cons_of_ne (by decide), settled]
            omega
      · rw [closeBrace?_cons_of_ne depth closes] at closed
        obtain ⟨⟨deeper, tail⟩, found, same⟩ := Option.map_eq_some_iff.mp closed
        obtain ⟨rfl, rfl⟩ := Prod.mk.inj same
        obtain ⟨fit, settled⟩ := ih found
        rw [bracesFit_cons]
        refine ⟨⟨fun same => absurd same closes, fit⟩, ?_⟩
        rw [depthAfter_singleton depth closes] at settled
        rw [List.count_cons_of_ne closes, settled]
        split
        next opens =>
          rw [opens, List.count_cons_self]
          omega
        next other => rw [List.count_cons_of_ne other]

theorem nested_of_closeBrace? {inner after : List Char}
    (closed : closeBrace? 0 text = some (inner, after)) : Nested inner := by
  obtain ⟨fit, settled⟩ := bracesFit_of_closeBrace? closed
  exact ⟨fit, by rw [settled, Nat.zero_add]⟩

/-- The line that closes a block behind an opening brace at the end of a line. -/
theorem closingLine?_opener (nested : Nested lines.flatten) {closing : List Char}
    (closes : depthAfter? 1 closing = none) (rest : List (List Char)) :
    closingLine? 0 (['{'] :: (lines ++ closing :: rest)) = some (lines.length + 1) := by
  have inside : closingLine? 1 (lines ++ closing :: rest) =
      (closingLine? 1 (closing :: rest)).map (· + lines.length) := by
    have passed := closingLine?_append nested.fit (closing :: rest)
    rw [nested.depthAfter_eq] at passed
    exact passed
  have opened : depthAfter? 0 ['{'] = some 1 := rfl
  have closed : closingLine? 1 (closing :: rest) = some 0 := by rw [closingLine?, closes]
  rw [closingLine?, opened]
  simp only [inside, closed, Option.map_some, Nat.zero_add]

end Bracket
end SorobanLint
