import SorobanLint.Contract.Function

/-!
# Implementation blocks

A marked `impl` block is read from its header on.  Its functions are those whose header begins a
line, behind attributes or not, outside the braces of other items in the block.
-/

namespace SorobanLint

open Text

namespace ImplBlock

/-- The beginning of a block's header. -/
def header : Pattern :=
  .all [.maybe (.seq "unsafe" .gap), "impl", .edge]

/-- The keyword at the beginning of a header, whatever follows it. -/
def keyword : Pattern :=
  .all [.maybe (.seq "unsafe" .gap), "impl"]

/-- The type behind the `for` of a header that names a trait. -/
def implementor : Pattern :=
  .all [.edge, "for", .gap, .capture (.seq (.one fun c => !isBlank c) (.many fun _ => true))]

/-- The header without its keyword and generic parameters. -/
def subject (header : List Char) : List Char :=
  let header := trim header
  let header := match keyword.match? header with
    | some found => trim found.stop.after
    | none => header
  if header.head? = some '<' then
    match Bracket.skipAngles? header with
    | some offset => trim (header.drop offset)
    | none => header
  else header

/-- The implemented type of a header: the last segment of its path, without trait, reference,
arguments and conditions. -/
def targetOf (header : List Char) : List Char :=
  let text := (Pattern.whole "where".toList).textBefore (subject header)
  let text := match implementor.search? text with
    | some found => found.captured
    | none => text
  let path := ((trim text).dropWhile (· = '&')).takeWhile (· ≠ '<')
  trim (Attribute.lastSegment (trim path))

/-- The change of a brace depth over a text, never going below zero. -/
def depthAfter (depth : Nat) (text : List Char) : Nat :=
  depth + text.count '{' - text.count '}'

/-- Read the functions on the lines of a block below its opener, the last of which holds the
closing brace; the first `skip` lines belong to a function already read, and `depth` braces of
other items are open. -/
def readFunctions (target : List Char) : Nat → Nat → List Line → Except Fault (List Function)
  | _, _, [] => .ok []
  | _, _, [_] => .ok []
  | skip + 1, depth, _ :: next :: rest => readFunctions target skip depth (next :: rest)
  | 0, depth, line :: next :: rest =>
    if depth = 0 && Function.header.isHeadOf line.item then do
      let (function, last) ← Function.read target line.item line (next :: rest)
      return function :: (← readFunctions target last 0 (next :: rest))
    else readFunctions target 0 (depthAfter depth line.code) (next :: rest)

/-- Read the block whose header begins with `item` at the end of the first line; also the index of
its last line. -/
def read (item : List Char) (first : Line) (later : List Line) :
    Except Fault (ImplBlock × Nat) := do
  let text := Line.codeText (first.codeFrom item) later
  match Bracket.firstOutsideAngles? (fun c => c = '{' || c = ';') 0 none text with
  | none => throw (.unfinished (.openHeader "\x7b;" first.number))
  | some (before, opener, after) =>
    if opener = ';' then throw (.unfinished (.implWithoutBlock first.number))
    let openLine := lineFeeds before
    match Bracket.closeBrace? 0 after with
    | none => throw (.unfinished (.openBlock (first.number + openLine)))
    | some (inner, _) =>
      let height := lineFeeds inner
      let target := targetOf before
      let functions ← readFunctions target 0 0 ((later.drop openLine).take height)
      return ({
        target := String.ofList target
        functions
        line := first.number
        definition := Line.rawThrough (first :: later) (openLine + height) }, openLine + height)

end ImplBlock
end SorobanLint
