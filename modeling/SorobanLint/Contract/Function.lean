import SorobanLint.Bracket.Group
import SorobanLint.Bracket.Split
import SorobanLint.Contract.Basic
import SorobanLint.Contract.Fault
import SorobanLint.Contract.Line

/-!
# Functions

A function is read from its header on: the parameter list is the first parenthesised group behind
the name, the body starts at the first opening brace or semicolon outside all brackets, and the
return type stands between the two.
-/

namespace SorobanLint

open Text

namespace Param

/-- A receiver: `self`, with a reference, a lifetime and `mut` in front or without. -/
def receiver : Pattern :=
  .all [
    .maybe (.all ["&", .spaces, .maybe (.all ["'", .word, .gap])]),
    .maybe (.seq "mut" .gap),
    "self",
    .edge]

/-- The mark of a mutable parameter. -/
def mutMark : Pattern := .seq "mut" .gap

/-- Read one entry of a parameter list; nothing for a receiver or an entry without a colon. -/
def parse? (entry : List Char) : Option Param :=
  let entry := squeeze entry
  if receiver.isHeadOf entry then none
  else
    match entry.dropWhile (· ≠ ':') with
    | [] => none
    | _ :: typeName =>
      let name := trim (entry.takeWhile (· ≠ ':'))
      let name := match mutMark.match? name with
        | some found => found.stop.after
        | none => name
      some ⟨String.ofList name, String.ofList (trim typeName)⟩

/-- Read a parameter list. -/
def readAll (list : List Char) : List Param :=
  (Bracket.splitCommas list).filterMap parse?

end Param

namespace Function

/-- A function's header up to its name, which is recorded. -/
def header : Pattern :=
  let abi := Pattern.maybe (.all [.gap, "\"", .many (· ≠ '"'), "\""])
  let qualifier := Pattern.alt (.oneOf ["const", "async", "unsafe"]) (.seq "extern" abi)
  .all [
    .maybe Visibility.mark,
    .star (.seq qualifier .gap),
    "fn",
    .gap,
    .capture (.all [.maybe "r#", .one isIdentStart, .many isWord])]

/-- The names of functions that set up a contract. -/
def constructorNames : List (List Char) :=
  ["new".toList, "__constructor".toList, "init".toList, "initialize".toList]

/-- Whether a function sets up the contract: by its name, or because its return type mentions
`Self` or the implemented type. -/
def isSetUp (name : List Char) (returnType : Option (List Char)) (target : List Char) : Bool :=
  constructorNames.contains name ||
    match returnType with
    | none => false
    | some type =>
      ("Self".toList :: if target.isEmpty then [] else [target]).any fun word =>
        (Pattern.whole word).occursIn type

/-- The return type in the text between the parameter list and the body, up to `where`. -/
def returnType? (text : List Char) : Option (List Char) :=
  match trimStart text with
  | '-' :: '>' :: behind =>
    let type := squeeze ((Pattern.whole "where".toList).textBefore behind)
    if type.isEmpty then none else some type
  | _ => none

/-- The extent of a signature in a text that begins with the function's name behind it: the
parameter list, the text between it and the body, and the body's opener with its offset. -/
structure Signature where
  /-- The text between the parentheses. -/
  params : List Char
  /-- The text between the parameter list and the opener. -/
  tail : List Char
  /-- The offset of the opener. -/
  bodyOffset : Nat
  /-- A brace, or the semicolon of a function without a body. -/
  opener : Char
deriving DecidableEq, Repr

namespace Signature

/-- Find the signature behind the name of the function on the given line. -/
def find (name : String) (line : Nat) (text : List Char) : Except StructureFault Signature :=
  match Bracket.firstGroup text with
  | .wrongCloser closer offset => .error (.wrongCloser name line closer offset)
  | .incomplete => .error (.openParams name line)
  | .found before params after =>
    match Bracket.bodyStart? after with
    | none => .error (.functionWithoutBody name line)
    | some stop =>
      .ok ⟨params, stop.before, before.length + params.length + 2 + stop.before.length,
        stop.visit.char⟩

end Signature

/-- The index of the last line of a function whose opener stands at an offset of the text that
the given lines make. -/
def lastLine (codes : List (List Char)) (line offset : Nat) (opener : Char) :
    Except StructureFault Nat :=
  let lead := Place.mk ((joinLines codes).take offset).reverse []
  let bodyLine := lead.line
  if opener = '{' then
    let column := lead.lineBefore.length
    let fromOpener := match codes.drop bodyLine with
      | [] => []
      | first :: rest => first.drop column :: rest
    match Bracket.closingLine? 0 fromOpener with
    | none => .error (.openBlock (line + bodyLine))
    | some last => .ok (bodyLine + last)
  else .ok bodyLine

/-- Read the function whose header was found in `text`, the end of the first line; also the index
of its last line. -/
def readFound (target text : List Char) (found : Match) (first : Line) (later : List Line) :
    Except StructureFault (Function × Nat) := do
  let codes := text :: later.map (·.code)
  let name := String.ofList found.captured
  let nameEnd := found.stop.offset
  let signature ← Signature.find name first.number ((joinLines codes).drop nameEnd)
  let last ← lastLine codes first.number (nameEnd + signature.bodyOffset) signature.opener
  let returnType := returnType? signature.tail
  return ({
    name
    params := Param.readAll signature.params
    returnType := returnType.map String.ofList
    visibility := (Visibility.split text).1
    isConstructor := isSetUp found.captured returnType target
    line := first.number
    definition := Line.rawThrough (first :: later) last }, last)

/-- Read the function whose header begins with `item` at the end of the first line. -/
def read (target item : List Char) (first : Line) (later : List Line) :
    Except Fault (Function × Nat) :=
  let text := first.codeFrom item
  match header.match? text with
  | none => .error (.lostHeader first.number)
  | some found => (readFound target text found first later).mapError .unfinished

/-- Read the function whose header stands on the line with the given index; nothing if there is no
header, and no answer at all if there is no such line. -/
def parse? (lines : List (List Char)) (index : Nat) (target : String) :
    Option (Except Fault (Option Function)) :=
  match (Line.ofTexts lines).drop index with
  | [] => none
  | first :: later =>
    if header.isHeadOf first.item then
      some ((read target.toList first.item first later).map fun (function, _) => some function)
    else some (.ok none)

end Function
end SorobanLint
