import SorobanLint.Proofs.Nesting
import SorobanLint.Proofs.Reading

/-!
# The line that closes a body

The line on which a block is closed is looked for line by line.  It is the line of the brace that
closes the block in the joined lines (`closingLine?_eq_closeBrace?`), so the last line of a function
is that of its semicolon or of the brace that matches its opening one
(`Function.lastLine_eq_closeBrace?`).
-/

namespace SorobanLint

open Text ImplBlock

namespace Bracket

variable {depth : Nat} {s t text inner after : List Char} {lines : List (List Char)}

theorem depthAfter?_append (depth : Int) (s t : List Char) :
    depthAfter? depth (s ++ t) = (depthAfter? depth s).bind (depthAfter? · t) := by
  induction s generalizing depth with
  | nil => rfl
  | cons c s ih =>
      rw [List.cons_append, depthAfter?, depthAfter?]
      split
      · exact ih _
      · split
        · split
          · rfl
          · exact ih _
        · exact ih _

/-- Where a closing brace is found, all braces are closed. -/
theorem depthAfter_of_closeBrace? (closed : closeBrace? depth text = some (inner, after)) :
    depthAfter depth inner = 0 := by
  have settled := (bracesFit_of_closeBrace? closed).2
  rw [depthAfter, settled, Nat.sub_self]

/-- A closing brace that is found is found in a longer text, too. -/
theorem closeBrace?_append_right (closed : closeBrace? depth text = some (inner, after))
    (more : List Char) : closeBrace? depth (text ++ more) = some (inner, after ++ more) := by
  have fit := (bracesFit_of_closeBrace? closed).1
  rw [append_of_closeBrace? closed, List.append_assoc, closeBrace?_append fit,
    depthAfter_of_closeBrace? closed]
  simp [closeBrace?]

/-- A line with the closing brace has no depth behind it. -/
theorem depthAfter?_of_closeBrace? (closed : closeBrace? depth text = some (inner, after)) :
    depthAfter? (depth + 1) text = none := by
  have fit := (bracesFit_of_closeBrace? closed).1
  rw [append_of_closeBrace? closed, depthAfter?_append, depthAfter?_eq fit,
    depthAfter_of_closeBrace? closed]
  rfl

theorem bracesFit_of_closeBrace?_eq_none (open_end : closeBrace? depth text = none) :
    BracesFit depth text := by
  induction text generalizing depth with
  | nil => exact bracesFit_of_braceless List.not_mem_nil depth
  | cons c rest ih =>
      rw [bracesFit_cons]
      by_cases closes : c = '}'
      · subst closes
        cases depth with
        | zero => simp [closeBrace?] at open_end
        | succ outer =>
            rw [closeBrace?_cons_close, Option.map_eq_none_iff] at open_end
            have level : depthAfter (outer + 1) ['}'] = outer := by simp [depthAfter]
            rw [level]
            exact ⟨fun _ => Nat.succ_pos outer, ih open_end⟩
      · rw [closeBrace?_cons_of_ne depth closes, Option.map_eq_none_iff] at open_end
        exact ⟨fun same => absurd same closes, ih open_end⟩

/-- The line that closes a block is that of the closing brace. -/
theorem closingLine?_eq_closeBrace? (feedless : ∀ line ∈ lines, '\n' ∉ line) :
    closingLine? (depth + 1) lines =
      (closeBrace? depth (joinLines lines)).map fun parts => lineFeeds parts.1 := by
  induction lines generalizing depth with
  | nil => rfl
  | cons line rest ih =>
      rw [List.forall_mem_cons] at feedless
      rw [closingLine?, joinLines_cons]
      cases closed : closeBrace? depth line with
      | some result =>
          obtain ⟨inner, after⟩ := result
          have inner_feedless : '\n' ∉ inner := by
            intro mem
            rw [append_of_closeBrace? closed] at feedless
            exact feedless.1 (List.mem_append_left _ mem)
          rw [depthAfter?_of_closeBrace? closed, closeBrace?_append_right closed]
          simp [lineFeeds_eq_zero inner_feedless]
      | none =>
          have fit := bracesFit_of_closeBrace?_eq_none closed
          rw [depthAfter?_eq fit, closeBrace?_append fit]
          simp only [ih feedless.2, Option.map_map]
          cases rest with
          | nil => rfl
          | cons next rest =>
              rw [List.flatMap_cons, List.cons_append, ← joinLines_cons,
                closeBrace?_cons_of_ne _ (by decide)]
              have level : depthAfter (depthAfter depth line) ['\n'] = depthAfter depth line := rfl
              rw [level, Option.map_map]
              refine congrArg (Option.map · _) (funext fun parts => ?_)
              change lineFeeds parts.1 + 1 = lineFeeds (line ++ '\n' :: parts.1)
              rw [lineFeeds_append, lineFeeds_eq_zero feedless.1, lineFeeds_cons_newline,
                Nat.zero_add]

end Bracket

/-- Behind whole lines and the beginning of a further one, that beginning is the text in front of
the place on its line. -/
theorem Place.lineBefore_terminated {above : List (List Char)} {left : List Char}
    (feedless : '\n' ∉ left) : lineBefore ⟨(terminated above ++ left).reverse, []⟩ = left := by
  have reverse_feedless : '\n' ∉ left.reverse := by rwa [List.mem_reverse]
  rw [lineBefore, List.reverse_append]
  rcases List.eq_nil_or_concat above with rfl | ⟨above, line, rfl⟩
  · rw [terminated, List.flatMap_nil, List.reverse_nil, List.append_nil,
      takeWhile_of_feedless reverse_feedless, List.reverse_reverse]
  · have last_feed : (terminated (above.concat line)).reverse =
        '\n' :: (terminated above ++ line).reverse := by
      simp [terminated]
    rw [last_feed, takeWhile_append_newline, takeWhile_of_feedless reverse_feedless,
      List.reverse_reverse]

namespace Function

theorem Signature.opener_ne_newline {name : String} {line : Nat} {text : List Char}
    {signature : Signature} (found : find name line text = .ok signature) :
    signature.opener ≠ '\n' := by
  rcases (find_eq_ok found).1 with same | same <;> rw [same] <;> decide

/-- The last line of a function is that of the semicolon behind its signature, or that of the brace
that closes its body. -/
theorem lastLine_eq_closeBrace? {codes : List (List Char)} {front back : List Char} {opener : Char}
    (feedless : ∀ code ∈ codes, '\n' ∉ code) (whole : joinLines codes = front ++ opener :: back)
    (solid : opener ≠ '\n') (line : Nat) :
    lastLine codes line front.length opener =
      if opener = '{' then
        match Bracket.closeBrace? 0 back with
        | none => .error (.openBlock (line + lineFeeds front))
        | some (inner, _) => .ok (lineFeeds front + lineFeeds inner)
      else .ok (lineFeeds front) := by
  have nonempty : codes ≠ [] := by
    rintro rfl
    simp at whole
  obtain ⟨above, left, right, below, rfl, rfl, rest_eq⟩ := cut_joinLines nonempty whole
  rw [List.forall_mem_append, List.forall_mem_cons, List.mem_append, not_or] at feedless
  obtain ⟨above_feedless, ⟨left_feedless, right_feedless⟩, below_feedless⟩ := feedless
  obtain ⟨right, rfl, rfl⟩ : ∃ rest, right = opener :: rest ∧ back = joinLines (rest :: below) := by
    rw [joinLines_cons] at rest_eq
    cases right with
    | nil =>
        cases below with
        | nil => contradiction
        | cons next below => exact absurd (List.cons.inj rest_eq).1 solid
    | cons d right =>
        obtain ⟨rfl, back_eq⟩ := List.cons.inj rest_eq
        exact ⟨right, rfl, back_eq.trans (joinLines_cons ..).symm⟩
  have lead_line : Place.line ⟨(terminated above ++ left).reverse, []⟩ = above.length := by
    rw [Place.line, lineFeeds, List.count_reverse, ← lineFeeds, lineFeeds_append,
      lineFeeds_terminated above_feedless, lineFeeds_eq_zero left_feedless, Nat.add_zero]
  have front_feeds : lineFeeds (terminated above ++ left) = above.length := by
    rw [← lead_line, Place.line, lineFeeds, lineFeeds, List.count_reverse]
  have rest_feedless : ∀ code ∈ right :: below, '\n' ∉ code :=
    List.forall_mem_cons.mpr
      ⟨fun mem => right_feedless (List.mem_cons_of_mem opener mem), below_feedless⟩
  have closing : Bracket.closingLine? 0 (('{' :: right) :: below) =
      (Bracket.closeBrace? 0 (joinLines (right :: below))).map fun parts =>
        lineFeeds parts.1 :=
    Bracket.closingLine?_eq_closeBrace? rest_feedless
  rw [lastLine, whole, List.take_left]
  simp only [lead_line, Place.lineBefore_terminated left_feedless, List.drop_left, front_feeds]
  split
  next braced =>
    subst braced
    rw [closing]
    cases Bracket.closeBrace? 0 (joinLines (right :: below)) <;> rfl
  next => rfl

end Function
end SorobanLint
