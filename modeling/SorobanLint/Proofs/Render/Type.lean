import SorobanLint.Proofs.Words

/-!
# Canonical types

The types that a rendered declaration may name, and their canonical text: segments of a path are
joined by `::`, entries of a list by a comma and a space.  A canonical text holds only single
spaces (`TypeExpr.spaced`), and its words are those of the type (`TypeExpr.runs_text`).
-/

namespace SorobanLint

open Text

/-- An ASCII identifier. -/
structure Ident where
  /-- The first character. -/
  head : Char
  /-- The other characters. -/
  tail : List Char
  head_start : isIdentStart head = true
  tail_rest : ∀ c ∈ tail, isIdentRest c = true

/-- A decimal numeral. -/
structure Digits where
  /-- The first digit. -/
  head : Char
  /-- The other digits. -/
  tail : List Char
  digits : ∀ c ∈ head :: tail, c.isDigit = true

/-- A path of identifiers. -/
structure IdentPath where
  /-- The first segment. -/
  first : Ident
  /-- The other segments. -/
  rest : List Ident

/-- A type of a rendered declaration. -/
inductive TypeExpr where
  /-- A path, with arguments in angle brackets unless there are none. -/
  | named (path : IdentPath) (args : List TypeExpr)
  /-- Types in parentheses. -/
  | tuple (items : List TypeExpr)
  /-- An array of the given length. -/
  | array (item : TypeExpr) (length : Digits)
  /-- A reference. -/
  | ref (target : TypeExpr)
  /-- A function pointer. -/
  | function (params : List TypeExpr) (result : TypeExpr)

/-- The entries with a comma and a space between neighbours. -/
def Text.commaList (entries : List (List Char)) : List Char :=
  [',', ' '].intercalate entries

/-- The entries in angle brackets, or nothing if there are none. -/
def Text.angleList : List (List Char) → List Char
  | [] => []
  | entry :: entries => '<' :: commaList (entry :: entries) ++ ['>']

/-- The text of an identifier. -/
def Ident.text (ident : Ident) : List Char := ident.head :: ident.tail

/-- The text of a numeral. -/
def Digits.text (number : Digits) : List Char := number.head :: number.tail

namespace IdentPath

/-- The segments with double colons between neighbours. -/
def text (path : IdentPath) : List Char :=
  path.first.text ++ path.rest.flatMap fun segment => ':' :: ':' :: segment.text

/-- The texts of the segments. -/
def words (path : IdentPath) : List (List Char) :=
  (path.first :: path.rest).map Ident.text

end IdentPath

namespace TypeExpr

mutual

/-- The canonical text of a type. -/
def text : TypeExpr → List Char
  | named path args => path.text ++ angleList (texts args)
  | tuple items => '(' :: commaList (texts items) ++ [')']
  | array item length => '[' :: text item ++ ';' :: ' ' :: length.text ++ [']']
  | ref target => '&' :: text target
  | function params result =>
    "fn".toList ++ ('(' :: commaList (texts params) ++ [')']) ++ " -> ".toList ++ text result

/-- The canonical texts of types. -/
def texts : List TypeExpr → List (List Char)
  | [] => []
  | type :: types => text type :: texts types

end

mutual

/-- The identifiers, keywords and numerals of a type, in order. -/
def words : TypeExpr → List (List Char)
  | named path args => path.words ++ wordsOfAll args
  | tuple items => wordsOfAll items
  | array item length => words item ++ [length.text]
  | ref target => words target
  | function params result => "fn".toList :: (wordsOfAll params ++ words result)

/-- The identifiers, keywords and numerals of types, in order. -/
def wordsOfAll : List TypeExpr → List (List Char)
  | [] => []
  | type :: types => words type ++ wordsOfAll types

end

theorem texts_eq_map (types : List TypeExpr) : texts types = types.map text := by
  induction types with
  | nil => rfl
  | cons type types ih => rw [texts, ih, List.map_cons]

theorem text_named (path : IdentPath) (args : List TypeExpr) :
    (named path args).text = path.text ++ angleList (args.map text) := by
  rw [text, texts_eq_map]

theorem text_tuple (items : List TypeExpr) :
    (tuple items).text = '(' :: commaList (items.map text) ++ [')'] := by
  rw [text, texts_eq_map]

theorem text_ref (target : TypeExpr) : (ref target).text = '&' :: target.text := by
  rw [text]

theorem text_function (params : List TypeExpr) (result : TypeExpr) :
    (function params result).text =
      ['f', 'n'] ++ ('(' :: commaList (params.map text) ++ [')']) ++
        ' ' :: '-' :: '>' :: ' ' :: result.text := by
  rw [text, texts_eq_map]
  exact List.append_assoc _ _ _

theorem wordsOfAll_eq_flatMap (types : List TypeExpr) : wordsOfAll types = types.flatMap words := by
  induction types with
  | nil => rfl
  | cons type types ih => rw [wordsOfAll, ih, List.flatMap_cons]

/-- Induction over types, with a hypothesis for each entry of a list of types. -/
@[elab_as_elim, induction_eliminator]
theorem induction {motive : TypeExpr → Prop}
    (named : ∀ path args, (∀ arg ∈ args, motive arg) → motive (named path args))
    (tuple : ∀ items, (∀ item ∈ items, motive item) → motive (tuple items))
    (array : ∀ item length, motive item → motive (array item length))
    (ref : ∀ target, motive target → motive (ref target))
    (function : ∀ params result, (∀ param ∈ params, motive param) → motive result →
      motive (function params result))
    (type : TypeExpr) : motive type := by
  refine @TypeExpr.rec motive (fun types => ∀ type ∈ types, motive type) named tuple array ref
    function (fun type mem => absurd mem List.not_mem_nil) ?_ type
  intro type types type_ih types_ih
  exact List.forall_mem_cons.mpr ⟨type_ih, types_ih⟩

end TypeExpr

/-! ## Lists of entries -/

namespace Text

variable {entries : List (List Char)}

theorem commaList_singleton (entry : List Char) : commaList [entry] = entry :=
  List.intercalate_singleton

theorem commaList_cons_cons (entry next : List Char) (rest : List (List Char)) :
    commaList (entry :: next :: rest) = entry ++ ',' :: ' ' :: commaList (next :: rest) := by
  rw [commaList, List.intercalate_cons_cons, List.append_assoc]
  rfl

theorem commaList_cons (entry : List Char) (entries : List (List Char)) :
    ∃ behind, commaList (entry :: entries) = entry ++ behind := by
  cases entries with
  | nil => exact ⟨[], by rw [commaList_singleton, List.append_nil]⟩
  | cons next rest => exact ⟨_, commaList_cons_cons entry next rest⟩

theorem forall_mem_commaList {q : Char → Prop} (comma : q ',') (space : q ' ')
    (inside : ∀ entry ∈ entries, ∀ c ∈ entry, q c) : ∀ c ∈ commaList entries, q c := by
  induction entries with
  | nil => exact fun c mem => absurd mem List.not_mem_nil
  | cons entry entries ih =>
      rw [List.forall_mem_cons] at inside
      cases entries with
      | nil =>
          rw [commaList_singleton]
          exact inside.1
      | cons next rest =>
          rw [commaList_cons_cons, List.forall_mem_append, List.forall_mem_cons,
            List.forall_mem_cons]
          exact ⟨inside.1, comma, space, ih inside.2⟩

theorem forall_mem_enclosed {q : Char → Prop} {opener closer : Char} (opens : q opener)
    (closes : q closer) (comma : q ',') (space : q ' ')
    (inside : ∀ entry ∈ entries, ∀ c ∈ entry, q c) :
    ∀ c ∈ opener :: commaList entries ++ [closer], q c := by
  rw [List.cons_append, List.forall_mem_cons, List.forall_mem_append, List.forall_mem_singleton]
  exact ⟨opens, forall_mem_commaList comma space inside, closes⟩

theorem spaced_commaList (nonempty : entries ≠ []) (spaced : ∀ entry ∈ entries, Spaced entry) :
    Spaced (commaList entries) := by
  induction entries with
  | nil => contradiction
  | cons entry entries ih =>
      rw [List.forall_mem_cons] at spaced
      cases entries with
      | nil =>
          rw [commaList_singleton]
          exact spaced.1
      | cons next rest =>
          rw [commaList_cons_cons]
          exact spaced.1.append (.gap (by decide) (ih (List.cons_ne_nil next rest) spaced.2))

/-- A list of entries in brackets is as well spaced as its entries. -/
theorem spaced_enclosed {opener closer : Char} (opener_solid : isBlank opener = false)
    (closer_solid : isBlank closer = false) (spaced : ∀ entry ∈ entries, Spaced entry) :
    Spaced (opener :: commaList entries ++ [closer]) := by
  cases entries with
  | nil => exact .cons opener_solid (.single closer_solid)
  | cons entry rest =>
      have inner := spaced_commaList (List.cons_ne_nil entry rest) spaced
      exact .cons opener_solid (inner.append (.single closer_solid))

theorem runs_commaList {p : Char → Bool} (comma : p ',' = true) (space : p ' ' = true)
    (entries : List (List Char)) : runs p (commaList entries) = entries.flatMap (runs p) := by
  induction entries with
  | nil => rfl
  | cons entry entries ih =>
      cases entries with
      | nil => rw [commaList_singleton, List.flatMap_singleton]
      | cons next rest =>
          rw [commaList_cons_cons, runs_append_cons comma, runs_cons space, ih]
          rfl

theorem runs_enclosed {p : Char → Bool} (comma : p ',' = true) (space : p ' ' = true)
    {opener closer : Char} (opens : p opener = true) (closes : p closer = true)
    (entries : List (List Char)) :
    runs p (opener :: commaList entries ++ [closer]) = entries.flatMap (runs p) := by
  rw [runs_concat closes, runs_cons opens, runs_commaList comma space]

end Text

/-! ## Texts of types -/

/-- The characters that canonical types are made of. -/
def Text.isTypeChar (c : Char) : Bool :=
  isIdentRest c || "<>()[],;: &-".toList.contains c

theorem Text.isTypeChar_of_isIdentRest {c : Char} (inside : isIdentRest c = true) :
    isTypeChar c = true := by
  rw [isTypeChar, inside, Bool.true_or]

theorem Text.ne_of_isTypeChar {c d : Char} (inside : isTypeChar c = true)
    (outside : isTypeChar d = false) : c ≠ d := by
  rintro rfl
  simp [inside] at outside

theorem Text.not_mem_of_isTypeChar {s : List Char} {d : Char}
    (inside : ∀ c ∈ s, isTypeChar c = true) (outside : isTypeChar d = false) : d ∉ s :=
  fun mem => ne_of_isTypeChar (inside d mem) outside rfl

theorem Text.runs_isBreak_of_isIdentRest {s : List Char} (inside : ∀ c ∈ s, isIdentRest c = true)
    (nonempty : s ≠ []) : runs isBreak s = [s] := by
  refine runs_of_forall ?_ nonempty
  intro c mem
  rw [isBreak, isWord_of_isIdentRest (inside c mem), Bool.not_true]

namespace Ident

variable (ident : Ident)

theorem text_ne_nil : ident.text ≠ [] := List.cons_ne_nil _ _

theorem isIdentRest_of_mem : ∀ c ∈ ident.text, isIdentRest c = true :=
  List.forall_mem_cons.mpr ⟨isIdentRest_of_isIdentStart ident.head_start, ident.tail_rest⟩

theorem isTypeChar_of_mem : ∀ c ∈ ident.text, isTypeChar c = true :=
  fun c mem => isTypeChar_of_isIdentRest (ident.isIdentRest_of_mem c mem)

theorem spaced : Spaced ident.text :=
  .of_forall (fun c mem => isBlank_of_isIdentRest (ident.isIdentRest_of_mem c mem))
    ident.text_ne_nil

theorem runs_text : runs isBreak ident.text = [ident.text] :=
  runs_isBreak_of_isIdentRest ident.isIdentRest_of_mem ident.text_ne_nil

theorem ne_colon : ∀ c ∈ ident.text, c ≠ ':' :=
  fun c mem => ne_of_isIdentRest (ident.isIdentRest_of_mem c mem) (by decide)

/-- The text in front of the first colon is the identifier that it stands behind. -/
theorem takeWhile_colon (rest : List Char) :
    (ident.text ++ ':' :: rest).takeWhile (· ≠ ':') = ident.text := by
  rw [List.takeWhile_append_of_pos, List.takeWhile_cons_of_neg (by simp), List.append_nil]
  intro c mem
  simpa using ident.ne_colon c mem

theorem dropWhile_colon (rest : List Char) :
    (ident.text ++ ':' :: rest).dropWhile (· ≠ ':') = ':' :: rest := by
  rw [List.dropWhile_append_of_pos, List.dropWhile_cons_of_neg (by simp)]
  intro c mem
  simpa using ident.ne_colon c mem

theorem isIdentifier_text : isIdentifier ident.text = true := by
  have inside : ident.tail.all isIdentRest = true := List.all_eq_true.mpr ident.tail_rest
  have plain :
      isIdentifier ident.text = (isIdentStart ident.head && ident.tail.all isIdentRest) := by
    unfold isIdentifier Ident.text
    split
    next c rest same =>
      have mem : '#' ∈ ident.tail := by
        rw [(List.cons.inj same).2]
        exact List.mem_cons_self
      exact absurd rfl (ne_of_isIdentRest (ident.tail_rest _ mem) (by decide))
    next same =>
      obtain ⟨rfl, rfl⟩ := List.cons.inj same
      rfl
    next same => cases same
  rw [plain, ident.head_start, inside]
  rfl

end Ident

namespace Digits

variable (number : Digits)

theorem text_ne_nil : number.text ≠ [] := List.cons_ne_nil _ _

theorem isIdentRest_of_mem : ∀ c ∈ number.text, isIdentRest c = true := by
  intro c mem
  simp [isIdentRest, Char.isAlphanum, number.digits c mem]

theorem isTypeChar_of_mem : ∀ c ∈ number.text, isTypeChar c = true :=
  fun c mem => isTypeChar_of_isIdentRest (number.isIdentRest_of_mem c mem)

theorem spaced : Spaced number.text :=
  .of_forall (fun c mem => isBlank_of_isIdentRest (number.isIdentRest_of_mem c mem))
    number.text_ne_nil

theorem runs_text : runs isBreak number.text = [number.text] :=
  runs_isBreak_of_isIdentRest number.isIdentRest_of_mem number.text_ne_nil

end Digits

namespace IdentPath

theorem text_nil (first : Ident) : (⟨first, []⟩ : IdentPath).text = first.text := by
  rw [text, List.flatMap_nil, List.append_nil]

theorem text_cons (first segment : Ident) (rest : List Ident) :
    (⟨first, segment :: rest⟩ : IdentPath).text =
      first.text ++ ':' :: ':' :: (⟨segment, rest⟩ : IdentPath).text := rfl

theorem forall_mem_text {q : Char → Prop} (inside : ∀ c, isIdentRest c = true → q c)
    (colon : q ':') (path : IdentPath) : ∀ c ∈ path.text, q c := by
  obtain ⟨first, rest⟩ := path
  have first_inside (ident : Ident) : ∀ c ∈ ident.text, q c :=
    fun c mem => inside c (ident.isIdentRest_of_mem c mem)
  induction rest generalizing first with
  | nil =>
      rw [text_nil]
      exact first_inside first
  | cons segment rest ih =>
      rw [text_cons, List.forall_mem_append, List.forall_mem_cons, List.forall_mem_cons]
      exact ⟨first_inside first, colon, colon, ih segment⟩

theorem isTypeChar_of_mem (path : IdentPath) : ∀ c ∈ path.text, isTypeChar c = true :=
  path.forall_mem_text (fun _ inside => isTypeChar_of_isIdentRest inside) (by decide)

theorem spaced (path : IdentPath) : Spaced path.text := by
  obtain ⟨first, rest⟩ := path
  induction rest generalizing first with
  | nil =>
      rw [text_nil]
      exact first.spaced
  | cons segment rest ih =>
      rw [text_cons]
      exact first.spaced.append (.cons (by decide) (.cons (by decide) (ih segment)))

theorem runs_text (path : IdentPath) : runs isBreak path.text = path.words := by
  obtain ⟨first, rest⟩ := path
  induction rest generalizing first with
  | nil =>
      rw [text_nil, first.runs_text]
      rfl
  | cons segment rest ih =>
      rw [text_cons, runs_append_cons (by decide), runs_cons (by decide), ih, first.runs_text]
      rfl

end IdentPath

namespace TypeExpr

theorem isTypeChar_of_mem (type : TypeExpr) : ∀ c ∈ type.text, isTypeChar c = true := by
  have listed {types : List TypeExpr} (ih : ∀ type ∈ types, ∀ c ∈ type.text, isTypeChar c = true) :
      ∀ entry ∈ types.map text, ∀ c ∈ entry, isTypeChar c = true := List.forall_mem_map.mpr ih
  induction type with
  | named path args ih =>
      rw [text_named, List.forall_mem_append]
      refine ⟨path.isTypeChar_of_mem, ?_⟩
      cases args with
      | nil => exact fun c mem => absurd mem List.not_mem_nil
      | cons arg args =>
          exact forall_mem_enclosed (by decide) (by decide) (by decide) (by decide) (listed ih)
  | tuple items ih =>
      rw [text_tuple]
      exact forall_mem_enclosed (by decide) (by decide) (by decide) (by decide) (listed ih)
  | array item length ih =>
      simp only [text, List.cons_append, List.append_assoc, List.forall_mem_cons,
        List.forall_mem_append]
      exact ⟨by decide, ih, by decide, by decide, length.isTypeChar_of_mem, by decide,
        List.forall_mem_nil _⟩
  | ref target ih =>
      rw [text, List.forall_mem_cons]
      exact ⟨by decide, ih⟩
  | function params result params_ih result_ih =>
      have parens : ∀ c ∈ '(' :: commaList (params.map text) ++ [')'], isTypeChar c = true :=
        forall_mem_enclosed (by decide) (by decide) (by decide) (by decide) (listed params_ih)
      rw [text_function, List.forall_mem_append, List.forall_mem_append]
      refine ⟨⟨forall_mem_of_all rfl, parens⟩, ?_⟩
      simp only [List.forall_mem_cons]
      exact ⟨by decide, by decide, by decide, by decide, result_ih⟩

theorem spaced (type : TypeExpr) : Spaced type.text := by
  have listed {types : List TypeExpr} (ih : ∀ type ∈ types, Spaced type.text) :
      ∀ entry ∈ types.map text, Spaced entry := List.forall_mem_map.mpr ih
  induction type with
  | named path args ih =>
      rw [text_named]
      cases args with
      | nil =>
          rw [List.map_nil, angleList, List.append_nil]
          exact path.spaced
      | cons arg args =>
          exact path.spaced.append (spaced_enclosed (by decide) (by decide) (listed ih))
  | tuple items ih =>
      rw [text_tuple]
      exact spaced_enclosed (by decide) (by decide) (listed ih)
  | array item length ih =>
      have sized : Spaced (length.text ++ [']']) := length.spaced.append (.single (by decide))
      have opened : Spaced ('[' :: item.text) := .cons (by decide) ih
      have behind : Spaced (';' :: ' ' :: (length.text ++ [']'])) := .gap (by decide) sized
      have whole := opened.append behind
      rwa [text, List.append_assoc]
  | ref target ih =>
      rw [text]
      exact .cons (by decide) ih
  | function params result params_ih result_ih =>
      have keyword : Spaced ['f', 'n'] := .cons (by decide) (.single (by decide))
      have parens : Spaced ('(' :: commaList (params.map text) ++ [')']) :=
        spaced_enclosed (by decide) (by decide) (listed params_ih)
      have behind : Spaced ('-' :: '>' :: ' ' :: result.text) :=
        .cons (by decide) (.gap (by decide) result_ih)
      rw [text_function]
      exact (keyword.append parens).append_space behind

theorem runs_text (type : TypeExpr) : runs isBreak type.text = type.words := by
  have listed {types : List TypeExpr} (ih : ∀ type ∈ types, runs isBreak type.text = type.words) :
      (types.map text).flatMap (runs isBreak) = wordsOfAll types := by
    rw [wordsOfAll_eq_flatMap, List.flatMap_map]
    exact List.flatMap_congr ih
  induction type with
  | named path args ih =>
      rw [text_named, words]
      cases args with
      | nil =>
          rw [List.map_nil, angleList, List.append_nil, wordsOfAll, List.append_nil]
          exact path.runs_text
      | cons arg args =>
          rw [← listed ih, List.map_cons, angleList, List.cons_append,
            runs_append_cons (by decide), path.runs_text, runs_concat (by decide),
            runs_commaList (by decide) (by decide)]
  | tuple items ih =>
      rw [text_tuple, runs_enclosed (by decide) (by decide) (by decide) (by decide), listed ih,
        words]
  | array item length ih =>
      rw [text, words, runs_concat (by decide), List.cons_append, runs_cons (by decide),
        runs_append_cons (by decide), runs_cons (by decide), ih, length.runs_text]
  | ref target ih => rw [text, words, runs_cons (by decide), ih]
  | function params result params_ih result_ih =>
      have keyword : runs isBreak ['f', 'n'] = [['f', 'n']] :=
        runs_isBreak_of_isIdentRest (forall_mem_of_all rfl) (List.cons_ne_nil _ _)
      have front : runs isBreak (['f', 'n'] ++ '(' :: (commaList (params.map text) ++ [')'])) =
          ['f', 'n'] :: wordsOfAll params := by
        rw [runs_append_cons (by decide), keyword, runs_concat (by decide),
          runs_commaList (by decide) (by decide), listed params_ih]
        rfl
      rw [text_function, words, runs_append_cons (by decide), runs_cons (by decide),
        runs_cons (by decide), runs_cons (by decide), result_ih]
      exact congrArg (· ++ result.words) front

end TypeExpr

namespace Ident

/-- The identifier with its type. -/
def ascribe (ident : Ident) (type : TypeExpr) : List Char :=
  ident.text ++ ':' :: ' ' :: type.text

variable (ident : Ident) (type : TypeExpr)

theorem ascribe_spaced : Spaced (ident.ascribe type) :=
  ident.spaced.append (.gap (by decide) type.spaced)

theorem isTypeChar_of_mem_ascribe : ∀ c ∈ ident.ascribe type, isTypeChar c = true := by
  simp only [ascribe, List.forall_mem_append, List.forall_mem_cons]
  exact ⟨ident.isTypeChar_of_mem, by decide, by decide, type.isTypeChar_of_mem⟩

end Ident
end SorobanLint
