import SorobanLint.Proofs.Crossing
import SorobanLint.Proofs.Nesting
import SorobanLint.Proofs.Render.Type

/-!
# Canonical types are balanced

A walk crosses the text of a type from any stack and leaves the stack as it is
(`TypeExpr.balanced`); so a list of entries with types is split between its entries.
-/

namespace SorobanLint

open Text SorobanLint.Bracket

variable {entries : List (List Char)}

theorem Bracket.plain_of_isIdentRest {c : Char} (inside : isIdentRest c = true) :
    isQuiet c = true ∧ isSeparator c = false ∧ closesAngle (some c) = true := by
  have other {d : Char} (outside : isIdentRest d = false) : c ≠ d :=
    ne_of_isIdentRest inside outside
  have brackets : c ∉ "<>()[]\x7b\x7d".toList := by
    simp [other (d := '<'), other (d := '>'), other (d := '('), other (d := ')'), other (d := '['),
      other (d := ']'), other (d := '{'), other (d := '}'), isIdentRest]
  refine ⟨?_, ?_, ?_⟩
  · simpa [isQuiet] using brackets
  · simp [isSeparator, other (d := ','), other (d := ';'), isIdentRest]
  · simp [closesAngle, other (d := '-'), other (d := '='), isIdentRest]

/-- The entries of a list are crossed from any stack; the commas stand right above it. -/
theorem Text.crosses_commaList (balanced : ∀ entry ∈ entries, Balanced entry)
    (base : List Bracket) (previous : Option Char) (rest : List Char) :
    ∃ last, (entries ≠ [] → ∃ c, last = some c ∧ closesAngle (some c) = true) ∧
      Crosses (Visit.Within base) base previous (commaList entries) rest base last := by
  induction entries generalizing previous with
  | nil => exact ⟨previous, fun nonempty => absurd rfl nonempty, .nil⟩
  | cons entry entries ih =>
      rw [List.forall_mem_cons] at balanced
      cases entries with
      | nil =>
          rw [commaList_singleton]
          obtain ⟨c, closes, crosses⟩ := balanced.1.crosses_within base previous rest
          exact ⟨some c, fun _ => ⟨c, rfl, closes⟩, crosses⟩
      | cons next others =>
          rw [commaList_cons_cons]
          obtain ⟨c, -, first⟩ := balanced.1.crosses_within base previous
            (',' :: ' ' :: commaList (next :: others) ++ rest)
          obtain ⟨last, closes, later⟩ := ih balanced.2 (some ' ')
          have quiet : ∀ c ∈ [',', ' '], isQuiet c = true := forall_mem_of_all rfl
          have comma := crosses_quiet [',', ' '] quiet
            (fun c mem => within_of_quiet (quiet c mem) base) (some c)
            (commaList (next :: others) ++ rest)
          refine ⟨last, fun _ => closes (List.cons_ne_nil next others), first.append ?_⟩
          exact comma.append later

theorem Ident.balanced (ident : Ident) : Balanced ident.text :=
  .of_plain (fun c mem => plain_of_isIdentRest (ident.isIdentRest_of_mem c mem)) ident.text_ne_nil

theorem Digits.balanced (number : Digits) : Balanced number.text :=
  .of_plain (fun c mem => plain_of_isIdentRest (number.isIdentRest_of_mem c mem))
    number.text_ne_nil

namespace IdentPath

theorem balanced (path : IdentPath) : Balanced path.text := by
  obtain ⟨first, rest⟩ := path
  induction rest generalizing first with
  | nil =>
      rw [text_nil]
      exact first.balanced
  | cons segment rest ih =>
      have colons : Balanced [':', ':'] := .of_plain (forall_mem_of_all rfl) (List.cons_ne_nil _ _)
      rw [text_cons]
      exact first.balanced.append (colons.append (ih segment))

theorem isWord_of_mem_getLast? (path : IdentPath) : ∀ c ∈ path.text.getLast?, isWord c = true := by
  obtain ⟨first, rest⟩ := path
  induction rest generalizing first with
  | nil =>
      rw [text_nil]
      intro c mem
      exact isWord_of_isIdentRest (first.isIdentRest_of_mem c (List.mem_of_getLast? mem))
  | cons segment rest ih =>
      have nonempty : (⟨segment, rest⟩ : IdentPath).text ≠ [] := List.cons_ne_nil _ _
      have whole : (⟨first, segment :: rest⟩ : IdentPath).text =
          (first.text ++ [':', ':']) ++ (⟨segment, rest⟩ : IdentPath).text := by
        rw [text_cons, List.append_assoc]
        rfl
      rw [whole, List.getLast?_append_of_ne_nil _ nonempty]
      exact ih segment

end IdentPath

namespace TypeExpr

theorem balanced (type : TypeExpr) : Balanced type.text := by
  have listed {types : List TypeExpr} (ih : ∀ type ∈ types, Balanced type.text) :
      ∀ entry ∈ types.map text, Balanced entry := List.forall_mem_map.mpr ih
  have parens {types : List TypeExpr} (ih : ∀ type ∈ types, Balanced type.text) :
      Balanced ('(' :: commaList (types.map text) ++ [')']) := by
    have opens : opened? '(' = some paren := rfl
    refine .wrap opens rfl (by decide) ?_
    intro base previous rest
    obtain ⟨last, -, crosses⟩ := crosses_commaList (listed ih) (paren :: base) previous rest
    exact ⟨last, crosses⟩
  induction type with
  | named path args ih =>
      rw [text_named]
      cases args with
      | nil =>
          rw [List.map_nil, angleList, List.append_nil]
          exact path.balanced
      | cons arg args =>
          refine path.balanced.angles path.isWord_of_mem_getLast? ?_ ?_
          · obtain ⟨c, rest, text_eq, other⟩ := (ih arg List.mem_cons_self).opens
            obtain ⟨behind, list_eq⟩ := commaList_cons arg.text (args.map text)
            exact ⟨c, rest ++ behind, by rw [list_eq, text_eq]; rfl, other⟩
          · intro base previous rest
            obtain ⟨last, solid, crosses⟩ :=
              crosses_commaList (listed ih) (angle :: base) previous rest
            obtain ⟨c, rfl, closes⟩ := solid (List.cons_ne_nil _ _)
            exact ⟨c, closes, crosses⟩
  | tuple items ih =>
      rw [text_tuple]
      exact parens ih
  | array item length ih =>
      have opens : opened? '[' = some square := rfl
      have whole : Balanced ('[' :: (item.text ++ ';' :: ' ' :: length.text) ++ [']']) := by
        refine .wrap opens rfl (by decide) ?_
        intro base previous rest
        obtain ⟨c, -, first⟩ := ih.crosses_within (square :: base) previous
          (';' :: ' ' :: length.text ++ rest)
        obtain ⟨d, -, last⟩ := length.balanced.crosses_within (square :: base) (some ' ') rest
        have quiet : ∀ c ∈ [';', ' '], isQuiet c = true := forall_mem_of_all rfl
        have separator := crosses_quiet [';', ' '] quiet
          (fun c mem => within_of_quiet (quiet c mem) (square :: base)) (some c)
          (length.text ++ rest)
        exact ⟨some d, first.append (separator.append last)⟩
      exact whole
  | ref target ih =>
      have mark : Balanced ['&'] := .of_plain (forall_mem_of_all rfl) (List.cons_ne_nil _ _)
      rw [text]
      exact mark.append ih
  | function params result params_ih result_ih =>
      have keyword : Balanced ['f', 'n'] := .of_plain (forall_mem_of_all rfl) (List.cons_ne_nil _ _)
      rw [text_function]
      exact (keyword.append (parens params_ih)).append (Balanced.arrow.append result_ih)

/-- A type does not end with a separator. -/
theorem getLast?_text (type : TypeExpr) : ∀ c ∈ type.text.getLast?, isSeparator c = false := by
  induction type with
  | named path args _ =>
      intro c mem
      rw [text_named] at mem
      cases args with
      | nil =>
          rw [List.map_nil, angleList, List.append_nil] at mem
          have word := path.isWord_of_mem_getLast? c mem
          simp only [isSeparator, Bool.or_eq_false_iff, decide_eq_false_iff_not]
          constructor
          · rintro rfl
            contradiction
          · rintro rfl
            contradiction
      | cons arg args =>
          rw [List.map_cons, angleList, ← List.append_assoc, List.getLast?_concat] at mem
          obtain rfl := Option.mem_some.mp mem
          decide
  | tuple items _ =>
      intro c mem
      rw [text_tuple, List.getLast?_concat] at mem
      obtain rfl := Option.mem_some.mp mem
      decide
  | array item length _ =>
      intro c mem
      rw [text, List.getLast?_concat] at mem
      obtain rfl := Option.mem_some.mp mem
      decide
  | ref target ih =>
      intro c mem
      rw [text, List.getLast?_cons_of_ne_nil target.spaced.ne_nil] at mem
      exact ih c mem
  | function params result _ ih =>
      intro c mem
      rw [text_function, List.getLast?_append_of_ne_nil _ (List.cons_ne_nil _ _),
        List.getLast?_cons_cons, List.getLast?_cons_cons, List.getLast?_cons_cons,
        List.getLast?_cons_of_ne_nil result.spaced.ne_nil] at mem
      exact ih c mem

end TypeExpr

theorem Bracket.Nested.of_isTypeChar {text : List Char} (inside : ∀ c ∈ text, isTypeChar c = true) :
    Nested text :=
  .of_braceless (not_mem_of_isTypeChar inside (by decide))
    (not_mem_of_isTypeChar inside (by decide))

theorem Ident.ascribe_balanced (ident : Ident) (type : TypeExpr) :
    Balanced (ident.ascribe type) := by
  have colon : Balanced [':', ' '] := .of_plain (forall_mem_of_all rfl) (List.cons_ne_nil _ _)
  exact ident.balanced.append (colon.append type.balanced)

end SorobanLint
