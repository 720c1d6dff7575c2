import SorobanLint.Text.Word

/-!
# Walking through brackets

A walk reads a text from left to right and keeps the stack of open brackets, innermost first.
Parentheses, square brackets and braces always count.  An angle bracket counts only where it
looks like the beginning of an argument list, and is dropped without complaint when another
closer arrives; so comparisons, shifts and arrows leave the real brackets alone.
-/

namespace SorobanLint

open Text

/-- The four kinds of bracket. -/
inductive Bracket where
  | paren
  | square
  | brace
  | angle
deriving DecidableEq, Repr

namespace Bracket

/-- The kind of bracket that the character opens wherever it stands. -/
def opened? (c : Char) : Option Bracket :=
  if c = '(' then some paren
  else if c = '[' then some square
  else if c = '{' then some brace
  else none

/-- The kind of bracket that the character closes wherever it stands. -/
def closed? (c : Char) : Option Bracket :=
  if c = ')' then some paren
  else if c = ']' then some square
  else if c = '}' then some brace
  else none

/-- A `<` opens a group behind a word, a colon or nothing, unless it begins `<=` or `<<`. -/
def opensAngle (previous next : Option Char) : Bool :=
  previous.all (fun c => isWord c || c = ':') && next.all fun c => c ≠ '=' && c ≠ '<'

/-- A `>` closes nothing when it is the head of an arrow. -/
def closesAngle (previous : Option Char) : Bool :=
  previous.all fun c => c ≠ '-' && c ≠ '='

/-- The stack without the angle brackets on top. -/
def dropAngles (stack : List Bracket) : List Bracket :=
  stack.dropWhile (· = angle)

/-- The stack without the angle bracket on top, if there is one. -/
def dropAngle : List Bracket → List Bracket
  | angle :: rest => rest
  | stack => stack

/-- The stack behind a character, given its neighbours.  A closer that does not fit only drops the
angle brackets on top. -/
def step (stack : List Bracket) (previous : Option Char) (c : Char) (next : Option Char) :
    List Bracket :=
  if c = '<' then
    if opensAngle previous next then angle :: stack else stack
  else if c = '>' then
    if closesAngle previous then dropAngle stack else stack
  else
    match opened? c, closed? c with
    | some kind, _ => kind :: stack
    | none, some kind =>
      let real := dropAngles stack
      if real.head? = some kind then real.tail else real
    | none, none => stack

end Bracket

/-- A character met on a walk, with the brackets open in front of it and behind it. -/
structure Visit where
  /-- The character. -/
  char : Char
  /-- The stack in front of the character. -/
  before : List Bracket
  /-- The stack behind the character. -/
  after : List Bracket
deriving DecidableEq, Repr

namespace Visit

/-- The visit of a character, given the stack in front of it and its neighbours. -/
def of (stack : List Bracket) (previous : Option Char) (c : Char) (next : Option Char) : Visit :=
  ⟨c, stack, Bracket.step stack previous c next⟩

/-- Whether the character closes a bracket other than the innermost real one. -/
def isWrongCloser (visit : Visit) : Bool :=
  match Bracket.closed? visit.char with
  | some kind => (Bracket.dropAngles visit.before).head? != some kind
  | none => false

end Visit

/-- The place where a walk is stopped. -/
structure Stop where
  /-- The text in front of the character at which the walk stops. -/
  before : List Char
  /-- The visit of that character. -/
  visit : Visit
  /-- The text behind that character. -/
  after : List Char
deriving DecidableEq, Repr

namespace Bracket

/-- All visits of a walk that starts behind `previous` with the given stack. -/
def walkFrom (stack : List Bracket) (previous : Option Char) : List Char → List Visit
  | [] => []
  | c :: rest =>
    let visit := Visit.of stack previous c rest.head?
    visit :: walkFrom visit.after (some c) rest

/-- All visits of a walk through the text. -/
def walk (text : List Char) : List Visit :=
  walkFrom [] none text

/-- The first visit in `hit` of a walk that starts behind `previous` with the given stack. -/
def stopFrom? (hit : Visit → Bool) (stack : List Bracket) (previous : Option Char) :
    List Char → Option Stop
  | [] => none
  | c :: rest =>
    let visit := Visit.of stack previous c rest.head?
    if hit visit then some ⟨[], visit, rest⟩
    else (stopFrom? hit visit.after (some c) rest).map fun stop =>
      { stop with before := c :: stop.before }

/-- The first visit in `hit` of a walk through the text. -/
def stop? (hit : Visit → Bool) (text : List Char) : Option Stop :=
  stopFrom? hit [] none text

theorem append_of_stopFrom? {hit : Visit → Bool} {stack : List Bracket} {previous : Option Char}
    {text : List Char} {stop : Stop} (found : stopFrom? hit stack previous text = some stop) :
    text = stop.before ++ stop.visit.char :: stop.after := by
  induction text generalizing stack previous stop with
  | nil => simp [stopFrom?] at found
  | cons c rest ih =>
    rw [stopFrom?] at found
    split at found
    · cases found
      rfl
    · obtain ⟨inner, inner_found, rfl⟩ := Option.map_eq_some_iff.mp found
      simp only [List.cons_append, List.cons.injEq, true_and]
      exact ih inner_found

end Bracket
end SorobanLint
