import SorobanLint.Text.Hex
import SorobanLint.Yaml.Cursor
import SorobanLint.Yaml.Fault

/-!
# YAML scalars

The three ways to write a scalar: plain, between quotes, and as a block of indented lines.  In the
first two a single line break inside a scalar becomes a space, and of several the first is dropped.
-/

namespace SorobanLint
namespace Yaml

/-- Blank lines inside a scalar. -/
structure Gap where
  /-- The line breaks. -/
  breaks : List Char
  /-- The number of characters. -/
  length : Nat
  /-- Whether a document separator follows. -/
  separated : Bool

namespace Gap

/-- No characters. -/
def none : Gap := ⟨[], 0, false⟩

/-- The gap with one more character in front. -/
def behindSpace (gap : Gap) : Gap := { gap with length := gap.length + 1 }

/-- The gap with one more line break in front. -/
def behindBreak (c : Char) (gap : Gap) : Gap :=
  { gap with breaks := contentBreak c :: gap.breaks, length := gap.length + 1 }

/-- The blank lines at the beginning of a line; `isBlank` tells the characters that may stand on
them. -/
def read (isBlank : Char → Bool) : List Char → Gap
  | [] => none
  | c :: rest =>
    if isBlank c then (read isBlank rest).behindSpace
    else if isBreak c then
      if isSeparator rest then behindBreak c ⟨[], 0, true⟩ else (read isBlank rest).behindBreak c
    else none

/-- What a line break and the gap behind it are in the content of a scalar. -/
def fold (lineBreak : Char) (gap : Gap) : List Char :=
  let lineBreak := contentBreak lineBreak
  if lineBreak ≠ '\n' then lineBreak :: gap.breaks
  else if gap.breaks.isEmpty then [' ']
  else gap.breaks

end Gap

/-! ### Plain scalars -/

/-- The part of a plain scalar that stands on one line without spaces. -/
def plainRun (flow : Bool) : List Char → List Char
  | [] => []
  | c :: rest =>
    let endsFlow (c : Char) : Bool := flow && ",[]\x7b\x7d".toList.contains c
    let endsAtColon := isBoundary rest.head? || rest.head?.any endsFlow
    let ends := isBoundary (some c) || endsFlow c || flow && c = '?' || c = ':' && endsAtColon
    if ends then [] else c :: plainRun flow rest

/-- What stands between two runs of a plain scalar: its content, the rest of the text, and whether
there is a line break. -/
structure PlainSpace where
  /-- What the spaces and breaks are in the content; nothing if the scalar cannot go on. -/
  content : List Char
  /-- The text behind them. -/
  rest : List Char
  /-- Whether there is a line break among them. -/
  broken : Bool

namespace PlainSpace

/-- The spaces and breaks that come next. -/
def read (text : List Char) : PlainSpace :=
  let spaces := text.takeWhile (· = ' ')
  let rest := text.drop spaces.length
  match rest with
  | [] => ⟨spaces, rest, false⟩
  | c :: below =>
    if !isBreak c then ⟨spaces, rest, false⟩
    else if isSeparator below then ⟨[], below, true⟩
    else
      let gap := Gap.read (· = ' ') below
      ⟨if gap.separated then [] else gap.fold c, below.drop gap.length, true⟩

end PlainSpace

/-- Read a plain scalar that must be indented by `indent` outside flow collections: its content, the
position behind it, and whether a line break stands in front of that position.  Each round reads
one run. -/
def plainFrom (flow : Bool) (indent : Int) (spaces : List Char) :
    Nat → Cursor → List Char × Cursor × Bool
  | 0, cursor => ([], cursor, false)
  | rounds + 1, cursor =>
    let run := plainRun flow cursor.rest
    let space := PlainSpace.read (cursor.rest.drop run.length)
    let next := cursor.skipTo space.rest
    let stops := space.content.isEmpty || next.peek = some '#' || !flow && next.column < indent ||
      (plainRun flow next.rest).isEmpty
    let head := spaces ++ run
    if stops then (head, next, space.broken)
    else
      let (tail, stop, broken) := plainFrom flow indent space.content rounds next
      (head ++ tail, stop, broken)

/-- Read a plain scalar. -/
def plain (flow : Bool) (indent : Int) (cursor : Cursor) : List Char × Cursor × Bool :=
  plainFrom flow indent [] cursor.rest.length cursor

/-! ### Quoted scalars -/

/-- What a character behind a backslash stands for. -/
def escaped? (c : Char) : Option Char :=
  [('0', '\u0000'), ('a', '\u0007'), ('b', '\u0008'), ('t', '\t'), ('\t', '\t'), ('n', '\n'),
    ('v', '\u000b'), ('f', '\u000c'), ('r', '\r'), ('e', '\u001b'), (' ', ' '), ('"', '"'),
    ('\\', '\\'), ('/', '/'), ('N', '\u0085'), ('_', '\u00a0'), ('L', '\u2028'),
    ('P', '\u2029')].lookup c

/-- The number of hexadecimal digits behind the letter of an escape. -/
def escapeWidth? (c : Char) : Option Nat :=
  [('x', 2), ('u', 4), ('U', 8)].lookup c

/-- The lines below a line break in a quoted scalar; nothing if a document separator is among
them. -/
def quotedGap? (below : List Char) : Option Gap :=
  let gap := Gap.read isSpace below
  if isSeparator below || gap.separated then none else some gap

/-- The character that an escape stands for by its number; half of a surrogate pair is replaced. -/
def escapedCode (n : Nat) : Except Fault Char :=
  if 0x80000000 ≤ n then .error .hugeCharacter
  else if 0x110000 ≤ n then .error .noCharacter
  else if 0xd800 ≤ n && n ≤ 0xdfff then .ok '\ufffd'
  else .ok (Char.ofNat n)

/-- Read a quoted scalar behind its opening quote: its content and the text behind the closing
quote.  The first `skip` characters are already read. -/
def quotedFrom (double : Bool) : Nat → List Char → Except Fault (List Char × List Char)
  | _, [] => .error .mistake
  | skip + 1, _ :: rest => quotedFrom double skip rest
  | 0, c :: rest =>
    let onward (content : List Char) (skip : Nat) :=
      (quotedFrom double skip rest).map fun (tail, after) => (content ++ tail, after)
    if c = '"' && double then .ok ([], rest)
    else if c = '\'' && !double then
      if rest.head? = some '\'' then onward ['\''] 1 else .ok ([], rest)
    else if c = '\\' && double then
      match rest with
      | [] => .error .mistake
      | e :: behind =>
        match escaped? e, escapeWidth? e with
        | some plain, _ => onward [plain] 1
        | none, some width =>
          let digits := behind.take width
          if digits.length < width then .error .mistake
          else
            match (Text.hexNumber? digits).map escapedCode with
            | some (.ok plain) => onward [plain] (width + 1)
            | some (.error fault) => .error fault
            | none => .error .mistake
        | none, none =>
          if isBreak e then
            match quotedGap? behind with
            | some gap => onward gap.breaks (gap.length + 1)
            | none => .error .mistake
          else .error .mistake
    else if isBoundary (some c) then
      let spaces := (c :: rest).takeWhile isSpace
      match (c :: rest).drop spaces.length with
      | [] => .error .mistake
      | b :: below =>
        if isBreak b then
          match quotedGap? below with
          | some gap => onward (gap.fold b) (spaces.length + gap.length)
          | none => .error .mistake
        else onward spaces (spaces.length - 1)
    else onward [c] 0

/-- Read a quoted scalar at its opening quote. -/
def quoted (double : Bool) (cursor : Cursor) : Except Fault (List Char × Cursor) :=
  (quotedFrom double 0 (cursor.rest.drop 1)).map fun (content, rest) =>
    (content, cursor.skipTo rest)

/-! ### Block scalars -/

/-- What becomes of the line breaks at the end of a block scalar. -/
inductive Chomping where
  /-- All are dropped. -/
  | strip
  /-- One is kept. -/
  | clip
  /-- All are kept. -/
  | keep
deriving DecidableEq, Repr

/-- The header of a block scalar. -/
structure BlockHeader where
  /-- What becomes of the line breaks at the end. -/
  chomping : Chomping
  /-- The indentation, if it is given. -/
  increment : Option Nat

namespace BlockHeader

/-- The chomping that a character asks for. -/
def chomping? (c : Char) : Option Chomping :=
  if c = '+' then some .keep else if c = '-' then some .strip else none

/-- The indentation that a digit asks for. -/
def increment? (c : Char) : Option Nat :=
  if '1' ≤ c && c ≤ '9' then some (c.toNat - '0'.toNat) else none

/-- Read the indicators of a header, and the number of their characters. -/
def read (text : List Char) : BlockHeader × Nat :=
  match text with
  | a :: rest =>
    match chomping? a, increment? a with
    | some chomping, _ =>
      match rest.head?.bind increment? with
      | some n => (⟨chomping, some n⟩, 2)
      | none => (⟨chomping, none⟩, 1)
    | none, some n =>
      match rest.head?.bind chomping? with
      | some chomping => (⟨chomping, some n⟩, 2)
      | none => (⟨.clip, some n⟩, 1)
    | none, none => (⟨.clip, none⟩, 0)
  | [] => (⟨.clip, none⟩, 0)

end BlockHeader

/-- Lines in front of the content of a block scalar. -/
structure BlockGap where
  /-- The line breaks. -/
  breaks : List Char
  /-- The text behind them and the indentation that follows. -/
  rest : List Char
  /-- The column at which that text begins. -/
  column : Nat

namespace BlockGap

/-- Read empty lines and at most `indent` spaces of the line behind them. -/
def read (indent : Nat) : Nat → List Char → BlockGap
  | column, [] => ⟨[], [], column⟩
  | column, c :: rest =>
    if c = ' ' && column < indent then read indent (column + 1) rest
    else if isBreak c then
      let gap := read indent 0 rest
      { gap with breaks := contentBreak c :: gap.breaks }
    else ⟨[], c :: rest, column⟩

/-- Read empty lines and all spaces of the line behind them, and find the greatest indentation. -/
def detect : Nat → Nat → List Char → BlockGap × Nat
  | column, greatest, [] => (⟨[], [], column⟩, greatest)
  | column, greatest, c :: rest =>
    if c = ' ' then detect (column + 1) (max greatest (column + 1)) rest
    else if isBreak c then
      let (gap, greatest) := detect 0 greatest rest
      ({ gap with breaks := contentBreak c :: gap.breaks }, greatest)
    else (⟨[], c :: rest, column⟩, greatest)

end BlockGap

/-- The content of a block scalar up to its last line, with what ends it. -/
structure BlockBody where
  /-- The content without the breaks at the end. -/
  content : List Char
  /-- The break behind the last line. -/
  lastBreak : List Char
  /-- The breaks of the empty lines at the end. -/
  breaks : List Char
  /-- The text behind the scalar. -/
  rest : List Char

/-- Read the lines of a block scalar, given what stands in front of the first of them.  Each round
reads one line. -/
def blockLines (folded : Bool) (indent : Nat) : Nat → BlockGap → BlockBody
  | 0, gap => ⟨[], [], gap.breaks, gap.rest⟩
  | rounds + 1, gap =>
    if gap.rest.isEmpty || gap.column ≠ indent then ⟨[], [], gap.breaks, gap.rest⟩
    else
      let line := gap.rest.takeWhile (!isBreak ·)
      let behind := gap.rest.drop line.length
      let lineBreak := (behind.take 1).map contentBreak
      let next := BlockGap.read indent (if behind.isEmpty then gap.column + line.length else 0)
        (behind.drop 1)
      if next.rest.isEmpty || next.column ≠ indent then
        ⟨gap.breaks ++ line, lineBreak, next.breaks, next.rest⟩
      else
        let isIndented (text : List Char) := text.head?.any isSpace
        let joint :=
          if folded && lineBreak = ['\n'] && !isIndented gap.rest && !isIndented next.rest then
            if next.breaks.isEmpty then [' '] else []
          else lineBreak
        let body := blockLines folded indent rounds next
        { body with content := gap.breaks ++ line ++ joint ++ body.content }

/-- Read a block scalar at its indicator, inside a block of the given indentation. -/
def block? (folded : Bool) (parent : Int) (cursor : Cursor) : Option (List Char × Cursor) :=
  let (header, width) := BlockHeader.read (cursor.rest.drop 1)
  match (cursor.skip (width + 1)).peek with
  | some c => if c = ' ' || isBreak c then finish header width else none
  | none => finish header width
where
  /-- Read the lines below a header whose indicators have the given width. -/
  finish (header : BlockHeader) (width : Nat) : Option (List Char × Cursor) := do
    let below ← (cursor.skip (width + 1)).finishLine?
    let least := max 1 (parent + 1).toNat
    let (indent, gap) := match header.increment with
      | some n => (least + n - 1, BlockGap.read (least + n - 1) 0 below.rest)
      | none =>
        let (gap, greatest) := BlockGap.detect 0 0 below.rest
        (max least greatest, gap)
    let body := blockLines folded indent below.rest.length gap
    let ending := match header.chomping with
      | .strip => []
      | .clip => body.lastBreak
      | .keep => body.lastBreak ++ body.breaks
    return (body.content ++ ending, cursor.skipTo body.rest)

end Yaml
end SorobanLint
