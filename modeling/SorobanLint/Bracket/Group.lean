import SorobanLint.Bracket.Walk

/-!
# Bracketed groups

The first parenthesised group of a text, the end of an argument list in angle brackets, the
opener of a declaration's body, and the end of a block in braces.
-/

namespace SorobanLint

/-- What a search for the first parenthesised group meets first. -/
inductive GroupSearch where
  /-- A complete group, with the texts in front of it, inside it and behind it. -/
  | found (before inner after : List Char)
  /-- A closer, at the given offset, that does not fit the innermost open bracket. -/
  | wrongCloser (closer : Char) (offset : Nat)
  /-- The end of the text. -/
  | incomplete
deriving DecidableEq, Repr

namespace Bracket

/-- Look for the parenthesis that opens a group at depth zero, and then for the one that closes
it; a closer that does not fit ends the search. -/
def firstGroup (text : List Char) : GroupSearch :=
  match stop? (fun visit => visit.isWrongCloser || visit.char = '(' && visit.before = []) text with
  | none => .incomplete
  | some head =>
    if head.visit.isWrongCloser then .wrongCloser head.visit.char head.before.length
    else
      match stopFrom? (fun visit => visit.isWrongCloser || visit.char = ')' && visit.after = [])
          head.visit.after (some '(') head.after with
      | none => .incomplete
      | some tail =>
        if tail.visit.isWrongCloser then
          .wrongCloser tail.visit.char (head.before.length + 1 + tail.before.length)
        else .found head.before tail.before tail.after

/-- The text inside the first parenthesised group at depth zero; nothing when a wrong closer or
the end of the text comes first. -/
def insideParens? (text : List Char) : Option (List Char) :=
  match firstGroup text with
  | .found _ inner _ => some inner
  | .wrongCloser _ _ => none
  | .incomplete => none

/-- The offset behind the first `>` that leaves no bracket open. -/
def skipAngles? (text : List Char) : Option Nat :=
  (stop? (fun visit => visit.char = '>' && visit.after = []) text).map fun stop =>
    stop.before.length + 1

/-- The first opening brace or semicolon outside all brackets. -/
def bodyStart? (text : List Char) : Option Stop :=
  stop? (fun visit => (visit.char = '{' || visit.char = ';') && visit.before = []) text

/-- The texts inside and behind the braces of which `depth + 1` are open; only braces count. -/
def closeBrace? : Nat → List Char → Option (List Char × List Char)
  | _, [] => none
  | depth, c :: rest =>
    if c = '}' then
      match depth with
      | 0 => some ([], rest)
      | outer + 1 => (closeBrace? outer rest).map fun (inner, after) => (c :: inner, after)
    else
      (closeBrace? (if c = '{' then depth + 1 else depth) rest).map fun (inner, after) =>
        (c :: inner, after)

/-- The texts in front of and behind the first character in `target` outside angle brackets, with
that character; here every `<` opens, and a `>` that heads no arrow closes. -/
def firstOutsideAngles? (target : Char → Bool) (depth : Nat) (previous : Option Char) :
    List Char → Option (List Char × Char × List Char)
  | [] => none
  | c :: rest =>
    let onward (depth : Nat) := (firstOutsideAngles? target depth (some c) rest).map
      fun (before, found, after) => (c :: before, found, after)
    if c = '<' then onward (depth + 1)
    else if c = '>' && depth ≠ 0 && closesAngle previous then onward (depth - 1)
    else if target c && depth = 0 then some ([], c, rest)
    else onward depth

/-- The brace depth at the end of a line, or nothing if a closing brace takes it to zero. -/
def depthAfter? : Int → List Char → Option Int
  | depth, [] => some depth
  | depth, c :: rest =>
    if c = '{' then depthAfter? (depth + 1) rest
    else if c = '}' then if depth = 1 then none else depthAfter? (depth - 1) rest
    else depthAfter? depth rest

/-- The index of the line with the closing brace that takes the depth to zero. -/
def closingLine? : Int → List (List Char) → Option Nat
  | _, [] => none
  | depth, line :: rest =>
    match depthAfter? depth line with
    | none => some 0
    | some after => (closingLine? after rest).map (· + 1)

end Bracket
end SorobanLint
