import SorobanLint.Proofs.Brackets.Onward
import SorobanLint.Proofs.Indexed.Position

/-!
# Signatures by index

The parser adds one line after the other to a signature until its parameter list and then its body
are found.  What it finds in the first lines it would find in all of them, because no search looks
beyond the line feed behind the character at which it stops (`readSignature_eq`).
-/

namespace SorobanLint

open Text

namespace Indexed

/-! ## The signature -/

/-- Add the lines behind the one with the index `last` to a signature until the search finds what
it looks for; the lines up to the one with the index `limit` may be added. -/
def grow {α : Type} (codes : List (List Char)) (limit : Nat)
    (search : List Char → Option (Except StructureFault α)) (missing : StructureFault) (last : Nat)
    (parts : List (List Char)) : Access (Nat × List (List Char) × α) :=
  match search (joinLines parts) with
  | some outcome => (fun value => (last, parts, value)) <$> Access.of outcome
  | none =>
    if limit < last + 1 then throw missing
    else do
      let next ← Access.get codes (last + 1)
      grow codes limit search missing (last + 1) (parts ++ [next])
termination_by limit - last

/-- The offsets of the parentheses around a parameter list behind the name of a function. -/
def groupSpan? (name : String) (line nameEnd : Nat) (text : List Char) :
    Option (Except StructureFault (Nat × Nat)) :=
  match Bracket.firstGroup (text.drop nameEnd) with
  | .found before inner _ =>
    some (.ok (nameEnd + before.length, nameEnd + before.length + 1 + inner.length))
  | .wrongCloser closer offset => some (.error (.wrongCloser name line closer offset))
  | .incomplete => none

/-- The offset of the opener of a body behind the parenthesis at the offset `closing`. -/
def bodyOpener? (closing : Nat) (text : List Char) : Option (Except StructureFault Nat) :=
  (Bracket.bodyStart? (text.drop (closing + 1))).map fun stop =>
    .ok (closing + 1 + stop.before.length)

section Growth

variable {α : Type} {codes front more beyond parts : List (List Char)} {limit last : Nat}
  {search : List Char → Option (Except StructureFault α)}

/-- What a search finds in a text it finds in a longer one. -/
def Settled (search : List Char → Option (Except StructureFault α)) : Prop :=
  ∀ text outcome, search text = some outcome → ∀ more, search (text ++ '\n' :: more) = some outcome

/-- A signature grows until the search finds what it finds in all lines up to the limit; if there
is nothing to find, it grows up to the limit. -/
theorem grow_eq (settled : Settled search) (codes_eq : codes = front ++ (more ++ beyond))
    (front_length : front.length = last + 1) (limit_eq : limit = last + more.length)
    (nonempty : parts ≠ []) (missing : StructureFault) :
    ∃ taken left, more = taken ++ left ∧
      search (joinLines (parts ++ taken)) = search (joinLines (parts ++ more)) ∧
      grow codes limit search missing last parts =
        match search (joinLines (parts ++ more)) with
        | none => throw missing
        | some outcome =>
          (fun value => (last + taken.length, parts ++ taken, value)) <$> Access.of outcome := by
  induction more generalizing front last parts with
  | nil =>
      rw [List.length_nil, Nat.add_zero] at limit_eq
      refine ⟨[], [], rfl, rfl, ?_⟩
      rw [grow, List.append_nil]
      cases search (joinLines parts) with
      | none => rw [limit_eq]; simp
      | some outcome => rfl
  | cons next more ih =>
      cases here : search (joinLines parts) with
      | some outcome =>
          -- What is found in the lines so far is found in all of them, so no line is added.
          have later := settled _ _ here (joinLines (next :: more))
          rw [← joinLines_append_cons nonempty] at later
          refine ⟨[], next :: more, rfl, ?_, ?_⟩
          · rw [List.append_nil, here, later]
          · rw [grow, here, later]
            simp
      | none =>
          have get_eq : Access.get codes (last + 1) = pure next := by
            rw [codes_eq, ← front_length]
            exact Access.get_append ..
          rw [List.length_cons] at limit_eq
          have onward_eq : codes = (front ++ [next]) ++ (more ++ beyond) := by simp [codes_eq]
          have length_eq : (front ++ [next]).length = last + 1 + 1 := by simp [front_length]
          have onward_limit : limit = last + 1 + more.length := by omega
          have longer : parts ++ [next] ≠ [] := by simp
          obtain ⟨taken, left, rfl, same, grown⟩ := ih onward_eq length_eq onward_limit longer
          have count_eq : last + 1 + taken.length = last + (next :: taken).length := by
            rw [List.length_cons]
            omega
          simp only [List.append_assoc, List.singleton_append, count_eq] at same grown
          refine ⟨next :: taken, left, rfl, same, ?_⟩
          rw [grow, here]
          dsimp only
          rw [if_neg (by omega), get_eq, pure_bind, grown]

end Growth

theorem settled_groupSpan? (name : String) (line nameEnd : Nat) :
    Settled (groupSpan? name line nameEnd) := by
  intro text outcome found more
  have complete : Bracket.firstGroup (text.drop nameEnd) ≠ .incomplete := by
    intro incomplete
    simp [groupSpan?, incomplete] at found
  have within : nameEnd ≤ text.length := by
    by_contra beyond
    rw [List.drop_eq_nil_of_le (Nat.le_of_not_le beyond)] at complete
    exact complete rfl
  rw [groupSpan?, List.drop_append_of_le_length within, Bracket.firstGroup_append complete, ← found,
    groupSpan?]
  cases Bracket.firstGroup (text.drop nameEnd) <;> rfl

theorem settled_bodyOpener? (closing : Nat) : Settled (bodyOpener? closing) := by
  intro text outcome found more
  obtain ⟨stop, started, rfl⟩ := Option.map_eq_some_iff.mp found
  have within : closing + 1 ≤ text.length := by
    by_contra beyond
    rw [List.drop_eq_nil_of_le (Nat.le_of_not_le beyond)] at started
    contradiction
  rw [bodyOpener?, List.drop_append_of_le_length within, Bracket.bodyStart?_append started]
  rfl

/-- Read the lines of a signature, the first of which is given from its header on: their text, the
offsets of the parentheses around the parameter list, and the offset of the body's opener. -/
def readSignature (codes : List (List Char)) (limit index : Nat) (name : String) (nameEnd : Nat)
    (header : List Char) : Access (List Char × Nat × Nat × Nat) := do
  let (last, parts, opening, closing) ← grow codes limit (groupSpan? name (index + 1) nameEnd)
    (.openParams name (index + 1)) index [header]
  let (_, parts, body) ← grow codes limit (bodyOpener? closing)
    (.functionWithoutBody name (index + 1)) last parts
  return (joinLines parts, opening, closing, body)

section Signature

variable {codes above later beyond : List (List Char)} {code : List Char} {limit : Nat}

theorem cut_of_prefix {text front back : List Char} {c : Char}
    (leading : text <+: front ++ c :: back) (longer : front.length < text.length) :
    ∃ tail, text = front ++ c :: tail := by
  obtain ⟨more, whole⟩ := leading
  rcases List.append_eq_append_iff.mp whole with ⟨t, rfl, -⟩ | ⟨t, rfl, back_eq⟩
  · rw [List.length_append] at longer
    omega
  · cases t with
    | nil => simp at longer
    | cons d t => exact ⟨t, by rw [(List.cons.inj back_eq).1]⟩

theorem length_of_bodyOpener? {closing body : Nat} {text : List Char}
    (found : bodyOpener? closing text = some (.ok body)) : body < text.length := by
  obtain ⟨stop, started, same⟩ := Option.map_eq_some_iff.mp found
  have length_eq := congrArg List.length (Bracket.append_of_bodyStart? started).1
  rw [List.length_drop, List.length_append, List.length_cons] at length_eq
  have body_eq := Except.ok.inj same
  omega

theorem drop_group (front inner back : List Char) :
    (front ++ '(' :: (inner ++ ')' :: back)).drop (front.length + 1 + inner.length + 1) = back := by
  have cut : front ++ '(' :: (inner ++ ')' :: back) =
      (front ++ '(' :: (inner ++ [')'])) ++ back := by
    simp
  rw [cut, List.drop_left']
  simp only [List.length_append, List.length_cons, List.length_nil]
  omega

theorem take_group (front inner back : List Char) :
    ((front ++ '(' :: (inner ++ ')' :: back)).take (front.length + 1 + inner.length)).drop
      (front.length + 1) = inner := by
  have cut : front ++ '(' :: (inner ++ ')' :: back) =
      ((front ++ ['(']) ++ inner) ++ (')' :: back) := by simp
  have lengths : ((front ++ ['(']) ++ inner).length = front.length + 1 + inner.length := by
    simp only [List.length_append, List.length_singleton]
  rw [cut, List.take_left' lengths, List.drop_left' (by simp)]

/-- Where a group is found behind an offset, it stands in the text. -/
theorem cut_of_firstGroup {text before inner after : List Char} {start : Nat}
    (found : Bracket.firstGroup (text.drop start) = .found before inner after) :
    ∃ front, front.length = start + before.length ∧
      text = front ++ '(' :: (inner ++ ')' :: after) := by
  have rest_eq := Bracket.append_of_firstGroup found
  have lengths := congrArg List.length rest_eq
  rw [List.length_drop, List.length_append, List.length_cons] at lengths
  refine ⟨text.take start ++ before, ?_, ?_⟩
  · rw [List.length_append, List.length_take]
    omega
  · rw [List.append_assoc, ← rest_eq, List.take_append_drop]

/-- A text that reaches beyond the opener of a body is cut by the parentheses around the parameter
list and by that opener. -/
theorem cut_of_bodyStart? {text whole front inner after : List Char} {stop : Stop}
    (whole_eq : whole = front ++ '(' :: (inner ++ ')' :: after))
    (started : Bracket.bodyStart? after = some stop) (leading : text <+: whole)
    (longer : front.length + 1 + inner.length + 1 + stop.before.length < text.length) :
    ∃ lead tail, text = lead ++ stop.visit.char :: tail ∧
      lead.length = front.length + 1 + inner.length + 1 + stop.before.length ∧
      (text.take (front.length + 1 + inner.length)).drop (front.length + 1) = inner ∧
      lead.drop (front.length + 1 + inner.length + 1) = stop.before := by
  have lead_length : (front ++ '(' :: (inner ++ ')' :: stop.before)).length =
      front.length + 1 + inner.length + 1 + stop.before.length := by
    simp only [List.length_append, List.length_cons]
    omega
  have whole_cut :
      whole = (front ++ '(' :: (inner ++ ')' :: stop.before)) ++ stop.visit.char :: stop.after := by
    rw [whole_eq, (Bracket.append_of_bodyStart? started).1]
    simp
  obtain ⟨tail, text_eq⟩ := cut_of_prefix (whole_cut ▸ leading) (by omega)
  refine ⟨_, tail, text_eq, lead_length, ?_, drop_group ..⟩
  rw [text_eq]
  simp only [List.append_assoc, List.cons_append]
  exact take_group ..

/-- The signature is found in its lines as in all lines up to the limit. -/
theorem readSignature_eq (codes_eq : codes = above ++ code :: later ++ beyond)
    (limit_eq : limit = above.length + later.length) (header : List Char) (name : String)
    (nameEnd : Nat) :
    match Function.Signature.find name (above.length + 1)
      ((joinLines (header :: later)).drop nameEnd) with
    | .error fault =>
      readSignature codes limit above.length name nameEnd header = throw fault
    | .ok signature =>
      ∃ text opening closing lead tail,
        readSignature codes limit above.length name nameEnd header =
          pure (text, opening, closing, nameEnd + signature.bodyOffset) ∧
        text <+: joinLines (header :: later) ∧
        text = lead ++ signature.opener :: tail ∧ lead.length = nameEnd + signature.bodyOffset ∧
        (text.take closing).drop (opening + 1) = signature.params ∧
        lead.drop (closing + 1) = signature.tail := by
  have group_codes : codes = (above ++ [code]) ++ (later ++ beyond) := by simp [codes_eq]
  have group_length : (above ++ [code]).length = above.length + 1 := by simp
  obtain ⟨taken, left, later_eq, -, grown⟩ := grow_eq
    (settled_groupSpan? name (above.length + 1) nameEnd) group_codes group_length limit_eq
    (List.cons_ne_nil header []) (.openParams name (above.length + 1))
  rw [List.singleton_append, groupSpan?] at grown
  unfold Function.Signature.find
  cases group : Bracket.firstGroup ((joinLines (header :: later)).drop nameEnd) with
  | wrongCloser closer offset =>
      rw [group] at grown
      dsimp only
      rw [readSignature, grown]
      rfl
  | incomplete =>
      rw [group] at grown
      dsimp only
      rw [readSignature, grown]
      rfl
  | found before inner after =>
      obtain ⟨front, front_length, whole⟩ := cut_of_firstGroup group
      rw [group] at grown
      dsimp only at grown
      rw [← front_length] at grown
      change _ = pure (_, header :: taken, front.length, front.length + 1 + inner.length) at grown
      have onward_codes : codes = (above ++ code :: taken) ++ (left ++ beyond) := by
        simp [codes_eq, later_eq]
      have onward_length : (above ++ code :: taken).length = above.length + taken.length + 1 := by
        rw [List.length_append, List.length_cons, Nat.add_assoc]
      have onward_limit : limit = above.length + taken.length + left.length := by
        rw [limit_eq, later_eq, List.length_append, Nat.add_assoc]
      obtain ⟨more, rest, left_eq, body_same, body_grown⟩ := grow_eq
        (settled_bodyOpener? (front.length + 1 + inner.length)) onward_codes onward_length
        onward_limit (List.cons_ne_nil header taken) (.functionWithoutBody name (above.length + 1))
      have opener_eq : bodyOpener? (front.length + 1 + inner.length) (joinLines (header :: later)) =
          (Bracket.bodyStart? after).map fun stop =>
            .ok (front.length + 1 + inner.length + 1 + stop.before.length) := by
        rw [bodyOpener?, whole, drop_group]
      rw [List.cons_append, List.cons_append, ← later_eq, opener_eq] at body_same body_grown
      rw [readSignature, grown, pure_bind]
      dsimp only
      rw [body_grown]
      cases started : Bracket.bodyStart? after with
      | none => rfl
      | some stop =>
          have leading : joinLines (header :: (taken ++ more)) <+: joinLines (header :: later) := by
            rw [later_eq, left_eq, ← List.append_assoc, ← List.cons_append]
            exact joinLines_prefix (List.cons_ne_nil _ _) rest
          rw [started, Option.map_some] at body_same
          obtain ⟨lead, tail, text_eq, lead_length, params_eq, tail_eq⟩ :=
            cut_of_bodyStart? whole started leading (length_of_bodyOpener? body_same)
          have body_eq : front.length + 1 + inner.length + 1 + stop.before.length =
              nameEnd + (before.length + inner.length + 2 + stop.before.length) := by omega
          rw [Option.map_some, body_eq]
          exact ⟨_, _, _, lead, tail, rfl, leading, text_eq, lead_length.trans body_eq, params_eq,
            tail_eq⟩

end Signature

end Indexed
end SorobanLint
