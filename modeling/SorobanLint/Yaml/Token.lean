import SorobanLint.Text.Utf8
import SorobanLint.Yaml.Scalar

/-!
# YAML tokens

A YAML text is cut into tokens.  Outside flow collections the indentation opens and closes blocks;
where a key is found only when its colon comes, the key's token is put in front of it afterwards.
Where a text cannot be cut further, a last token tells what is wrong.
-/

namespace SorobanLint
namespace Yaml

/-- The tag of a node as it is written. -/
inductive TagName where
  /-- The whole tag. -/
  | verbatim (tag : List Char)
  /-- A handle and what follows it. -/
  | short (handle suffix : List Char)
deriving DecidableEq, Repr

/-- A token of YAML. -/
inductive Token where
  /-- A version directive whose major version is the supported one, or not. -/
  | version (supported : Bool)
  /-- A directive that gives a tag handle its prefix. -/
  | handle (handle replacement : List Char)
  /-- A directive that means nothing. -/
  | reserved
  | documentStart
  | documentEnd
  | blockSequenceStart
  | blockMappingStart
  | blockEnd
  | flowSequenceStart
  | flowSequenceEnd
  | flowMappingStart
  | flowMappingEnd
  | flowEntry
  | blockEntry
  | key
  | value
  | alias (name : List Char)
  | anchor (name : List Char)
  | tag (name : TagName)
  /-- A scalar, plain or not. -/
  | scalar (isPlain : Bool) (content : List Char)
  /-- What is wrong with the text behind the other tokens. -/
  | broken (fault : Fault)
deriving DecidableEq, Repr

/-- A place where a key may have begun. -/
structure KeyMark where
  /-- The depth of flow collections. -/
  flow : Nat
  /-- The number of tokens in front of the key. -/
  count : Nat
  /-- Whether a key must have begun here. -/
  isRequired : Bool
  /-- Where the key begins. -/
  index : Nat
  /-- The line of the key. -/
  line : Nat
  /-- The column of the key. -/
  column : Nat

/-- How far the tokens of a text are read. -/
structure Lexer where
  /-- The position in the text. -/
  cursor : Cursor
  /-- The depth of flow collections. -/
  flow : Nat
  /-- The indentation of the innermost block, or -1. -/
  indent : Int
  /-- The indentations around it, the innermost first. -/
  outer : List Int
  /-- Whether a key may begin here. -/
  allowsKey : Bool
  /-- Where keys may have begun, at most one for each depth. -/
  marks : List KeyMark
  /-- The tokens so far, the last one first. -/
  tokens : List Token
  /-- The number of tokens so far. -/
  count : Nat

namespace Lexer

/-- At the beginning of a text. -/
def start (text : List Char) : Lexer := ⟨.start text, 0, -1, [], true, [], [], 0⟩

/-- One more token. -/
def push (token : Token) (lexer : Lexer) : Lexer :=
  { lexer with tokens := token :: lexer.tokens, count := lexer.count + 1 }

/-- A token behind the first `position` tokens. -/
def insertAt (position : Nat) (token : Token) (lexer : Lexer) : Lexer :=
  let (late, early) := lexer.tokens.splitAt (lexer.count - position)
  { lexer with tokens := late ++ token :: early, count := lexer.count + 1 }

/-- The position so many characters further on. -/
def skip (n : Nat) (lexer : Lexer) : Lexer :=
  { lexer with cursor := lexer.cursor.skip n }

/-- Set whether a key may begin. -/
def allowKey (allows : Bool) (lexer : Lexer) : Lexer :=
  { lexer with allowsKey := allows }

/-- Whether the text goes on with the given character and a boundary, or just that character inside
flow collections. -/
def atIndicator (c : Char) (lexer : Lexer) : Bool :=
  match lexer.cursor.rest with
  | d :: rest => c = d && (lexer.flow ≠ 0 || isBoundary rest.head?)
  | [] => false

/-- Close the blocks that are indented more than the given column. -/
def unwindTo (column : Int) (lexer : Lexer) : List Int → Lexer
  | [] => { lexer with outer := [] }
  | parent :: rest =>
    if lexer.flow = 0 && column < lexer.indent then
      unwindTo column ({ lexer with indent := parent }.push .blockEnd) rest
    else { lexer with outer := parent :: rest }

/-- Close the blocks that are indented more than the given column. -/
def unwind (column : Int) (lexer : Lexer) : Lexer :=
  lexer.unwindTo column lexer.outer

/-- Open a block at the given column, if it is indented more than the innermost one; whether it is
opened. -/
def openBlock (column : Nat) (lexer : Lexer) : Bool × Lexer :=
  if lexer.indent < column then
    (true, { lexer with indent := column, outer := lexer.indent :: lexer.outer })
  else (false, lexer)

/-- Whether a key is no longer possible at a mark, which is on another line or far behind. -/
def isStale (lexer : Lexer) (mark : KeyMark) : Bool :=
  mark.line ≠ lexer.cursor.line || 1024 < lexer.cursor.index - mark.index

/-- Forget the places where a key is no longer possible; nothing if one is required there. -/
def dropStale? (lexer : Lexer) : Option Lexer :=
  if lexer.marks.any fun mark => lexer.isStale mark && mark.isRequired then none
  else some { lexer with marks := lexer.marks.filter fun mark => !lexer.isStale mark }

/-- Forget where a key may have begun at this depth; nothing if one is required there. -/
def dropMark? (lexer : Lexer) : Option Lexer :=
  let isHere (mark : KeyMark) := mark.flow = lexer.flow
  if lexer.marks.any fun mark => isHere mark && mark.isRequired then none
  else some { lexer with marks := lexer.marks.filter fun mark => !isHere mark }

/-- Remember that a key may begin here. -/
def saveMark? (lexer : Lexer) : Option Lexer :=
  if !lexer.allowsKey then some lexer
  else
    lexer.dropMark?.map fun lexer =>
      let cursor := lexer.cursor
      let isRequired := lexer.flow = 0 && lexer.indent = cursor.column
      let mark := ⟨lexer.flow, lexer.count, isRequired, cursor.index, cursor.line, cursor.column⟩
      { lexer with marks := mark :: lexer.marks }

/-- Skip spaces, comments and line breaks; a key may begin behind a line break. -/
def skipBlank : Nat → Lexer → Lexer
  | 0, lexer => lexer
  | rounds + 1, lexer =>
    let cursor := lexer.cursor.skipSpaces
    let cursor := if cursor.peek = some '#' then cursor.skipLine else cursor
    if cursor.peek.any isBreak then
      let allowsKey := lexer.allowsKey || lexer.flow = 0
      skipBlank rounds { lexer with cursor := cursor.skip 1, allowsKey }
    else { lexer with cursor }

/-- The lexer in front of the next token. -/
def toNextToken? (lexer : Lexer) : Option Lexer :=
  let atMark := lexer.cursor.index = 0 && lexer.cursor.peek = some '\ufeff'
  let lexer := if atMark then lexer.skip 1 else lexer
  ((lexer.skipBlank (lexer.cursor.rest.length + 1)).dropStale?).map fun lexer =>
    lexer.unwind lexer.cursor.column

/-! ### Tokens of their own -/

/-- A token that closes all blocks and has the given width. -/
def documentMark? (token : Token) (width : Nat) (lexer : Lexer) : Option Lexer :=
  (lexer.unwind (-1)).dropMark?.map fun lexer =>
    ((lexer.allowKey false).skip width).push token

/-- The beginning of a flow collection. -/
def flowStart? (token : Token) (lexer : Lexer) : Option Lexer :=
  lexer.saveMark?.map fun lexer =>
    ({ lexer with flow := lexer.flow + 1, allowsKey := true }.skip 1).push token

/-- The end of a flow collection; nothing if none is open. -/
def flowEnd? (token : Token) (lexer : Lexer) : Option Lexer :=
  if lexer.flow = 0 then none
  else
    lexer.dropMark?.map fun lexer =>
      ({ lexer with flow := lexer.flow - 1, allowsKey := false }.skip 1).push token

/-- A comma between entries. -/
def comma? (lexer : Lexer) : Option Lexer :=
  lexer.dropMark?.map fun lexer => ((lexer.allowKey true).skip 1).push .flowEntry

/-- Open a block for an entry in it, where a key may begin. -/
def beginItem? (blockStart : Token) (lexer : Lexer) : Option Lexer :=
  if lexer.flow ≠ 0 then some lexer
  else if !lexer.allowsKey then none
  else
    let (opened, lexer) := lexer.openBlock lexer.cursor.column
    some (if opened then lexer.push blockStart else lexer)

/-- The dash of a block sequence. -/
def dash? (lexer : Lexer) : Option Lexer := do
  let lexer ← (← lexer.beginItem? .blockSequenceStart).dropMark?
  return ((lexer.allowKey true).skip 1).push .blockEntry

/-- The question mark in front of a key. -/
def key? (lexer : Lexer) : Option Lexer := do
  let lexer ← (← lexer.beginItem? .blockMappingStart).dropMark?
  return ((lexer.allowKey (lexer.flow = 0)).skip 1).push .key

/-- The colon in front of a value; the key may have begun earlier on the line. -/
def value? (lexer : Lexer) : Option Lexer :=
  match lexer.marks.find? fun mark => mark.flow = lexer.flow with
  | some mark =>
    let lexer := { lexer with marks := lexer.marks.filter fun other => other.flow ≠ lexer.flow }
    let lexer := lexer.insertAt mark.count .key
    let (opened, lexer) :=
      if lexer.flow = 0 then lexer.openBlock mark.column else (false, lexer)
    let lexer := if opened then lexer.insertAt mark.count .blockMappingStart else lexer
    some (((lexer.allowKey false).skip 1).push .value)
  | none => do
    let lexer ← lexer.beginItem? .blockMappingStart
    return ((lexer.allowKey (lexer.flow = 0)).skip 1).push .value

/-! ### Names and tags -/

/-- An anchor or an alias. -/
def name? (token : List Char → Token) (lexer : Lexer) : Option Lexer := do
  let lexer ← lexer.saveMark?
  let name := (lexer.cursor.rest.drop 1).takeWhile isNameChar
  let after := lexer.cursor.rest[name.length + 1]?
  let ends := isBoundary after || after.any fun c => "?:,]\x7d%@`".toList.contains c
  if name.isEmpty || !ends then none
  else some (((lexer.allowKey false).skip (name.length + 1)).push (token name))

/-- Whether the character may stand in a tag. -/
def isTagChar (c : Char) : Bool :=
  c.isAlphanum || "-;/?:@&=+$,_.!~*'()[]%".toList.contains c

/-- Whether the tag's text ends in front of the character. -/
def endsTag (next : Option Char) : Bool :=
  next.all fun c => c = ' ' || isBreak c

/-- The octets of a tag's text, with those that percent escapes stand for. -/
def tagOctets? : Nat → List Char → Option (List UInt8)
  | _, [] => some []
  | skip + 1, _ :: rest => tagOctets? skip rest
  | 0, c :: rest =>
    if c = '%' then
      match rest with
      | a :: b :: _ => do
        let n ← Text.hexNumber? [a, b]
        (UInt8.ofNat n :: ·) <$> tagOctets? 2 rest
      | _ => none
    else (Utf8.encodeChar c ++ ·) <$> tagOctets? 0 rest

/-- The tag's text with its escapes read as the octets of characters. -/
def unescapeTag? (text : List Char) : Option (List Char) := do
  (Utf8.decode (← tagOctets? 0 text)).toOption

/-- The handle that a text begins with: a name, which may be empty, between exclamation marks, or
one exclamation mark in front of a space. -/
def handleOf? (text : List Char) : Option (List Char) :=
  match text with
  | '!' :: rest =>
    let name := rest.takeWhile isNameChar
    if rest[name.length]? = some '!' then some ('!' :: name ++ ['!'])
    else if rest.head? = some ' ' then some ['!']
    else none
  | _ => none

/-- A tag and the number of its characters. -/
def tagName? (text : List Char) : Option (TagName × Nat) :=
  match text.drop 1 with
  | '<' :: rest => do
    let uri := rest.takeWhile isTagChar
    if uri.isEmpty || rest[uri.length]? ≠ some '>' then none
    return (.verbatim (← unescapeTag? uri), uri.length + 3)
  | rest =>
    if isBoundary rest.head? then some (.verbatim ['!'], 1)
    else do
      let run := rest.takeWhile fun c => !(c = ' ' || isBreak c)
      let handle ← if run.contains '!' then handleOf? text else some ['!']
      let suffix := (text.drop handle.length).takeWhile isTagChar
      if suffix.isEmpty then none
      return (.short handle (← unescapeTag? suffix), handle.length + suffix.length)

/-- A tag. -/
def tag? (lexer : Lexer) : Option Lexer := do
  let lexer ← lexer.saveMark?
  let (name, length) ← tagName? lexer.cursor.rest
  let lexer := (lexer.allowKey false).skip length
  if endsTag lexer.cursor.peek then return lexer.push (.tag name) else none

/-! ### Directives -/

/-- The version that a directive gives. -/
def versionOf? (text : List Char) : Option (Token × List Char) :=
  let text := text.dropWhile (· = ' ')
  let major := text.takeWhile Char.isDigit
  match text.drop major.length with
  | '.' :: rest =>
    let minor := rest.takeWhile Char.isDigit
    let rest := rest.drop minor.length
    if major.isEmpty || minor.isEmpty || !endsTag rest.head? then none
    else some (.version (major.dropWhile (· = '0') = ['1']), rest)
  | _ => none

/-- The handle and prefix that a directive gives. -/
def handleDirective? (text : List Char) : Option (Token × List Char) := do
  let text := text.dropWhile (· = ' ')
  let handle ← handleOf? text
  let behind := text.drop handle.length
  if behind.head? ≠ some ' ' then none
  let text := behind.dropWhile (· = ' ')
  let replacement := text.takeWhile isTagChar
  if replacement.isEmpty then none
  let rest := text.drop replacement.length
  if endsTag rest.head? then return (.handle handle (← unescapeTag? replacement), rest) else none

/-- A directive. -/
def directive? (lexer : Lexer) : Option Lexer := do
  let lexer ← (lexer.unwind (-1)).dropMark?
  let name := (lexer.cursor.rest.drop 1).takeWhile isNameChar
  let rest := lexer.cursor.rest.drop (name.length + 1)
  if name.isEmpty || !endsTag rest.head? then none
  let (token, rest) ←
    if name = "YAML".toList then versionOf? rest
    else if name = "TAG".toList then handleDirective? rest
    else some (.reserved, rest.dropWhile (!isBreak ·))
  let cursor ← (lexer.cursor.skipTo rest).finishLine?
  return ({ lexer with cursor, allowsKey := false }).push token

/-! ### Scalars -/

/-- A block scalar. -/
def block? (folded : Bool) (lexer : Lexer) : Option Lexer := do
  let lexer ← lexer.dropMark?
  let (content, cursor) ← Yaml.block? folded lexer.indent lexer.cursor
  return ({ lexer with cursor, allowsKey := true }).push (.scalar false content)

/-- What is read, or else a mistake. -/
def orMistake {α : Type} : Option α → Except Fault α
  | some a => .ok a
  | none => .error .mistake

/-- A scalar between quotes. -/
def quoted (double : Bool) (lexer : Lexer) : Except Fault Lexer := do
  let lexer ← orMistake lexer.saveMark?
  let (content, cursor) ← Yaml.quoted double lexer.cursor
  return ({ lexer with cursor, allowsKey := false }).push (.scalar false content)

/-- A plain scalar; a key may begin behind it if a line break follows. -/
def plain? (lexer : Lexer) : Option Lexer :=
  lexer.saveMark?.map fun lexer =>
    let (content, cursor, broken) := Yaml.plain (lexer.flow ≠ 0) (lexer.indent + 1) lexer.cursor
    ({ lexer with cursor, allowsKey := broken }).push (.scalar true content)

/-- Whether a plain scalar may begin here. -/
def startsPlain (lexer : Lexer) : Bool :=
  match lexer.cursor.rest with
  | [] => false
  | c :: rest =>
    !(isBoundary (some c) || "-?:,[]\x7b\x7d#&*!|>'\"%@`".toList.contains c) ||
      !isBoundary rest.head? && (c = '-' || lexer.flow = 0 && (c = '?' || c = ':'))

/-- Read the token that begins at the character `c`, which is no quote and in front of which the
lexer is. -/
def token? (c : Char) (lexer : Lexer) : Option Lexer :=
  let atLineStart := lexer.cursor.column = 0
  if c = '%' && atLineStart then lexer.directive?
  else if c = '-' && atLineStart && isSeparator lexer.cursor.rest then
    lexer.documentMark? .documentStart 3
  else if c = '.' && atLineStart && isSeparator lexer.cursor.rest then
    lexer.documentMark? .documentEnd 3
  else if c = '[' then lexer.flowStart? .flowSequenceStart
  else if c = '{' then lexer.flowStart? .flowMappingStart
  else if c = ']' then lexer.flowEnd? .flowSequenceEnd
  else if c = '}' then lexer.flowEnd? .flowMappingEnd
  else if c = ',' then lexer.comma?
  else if c = '-' && isBoundary (lexer.cursor.rest[1]?) then lexer.dash?
  else if lexer.atIndicator '?' then lexer.key?
  else if lexer.atIndicator ':' then lexer.value?
  else if c = '*' then lexer.name? .alias
  else if c = '&' then lexer.name? .anchor
  else if c = '!' then lexer.tag?
  else if c = '|' && lexer.flow = 0 then lexer.block? false
  else if c = '>' && lexer.flow = 0 then lexer.block? true
  else if lexer.startsPlain then lexer.plain?
  else none

/-- The lexer behind the next token, or at the end of the text; whether it is at the end. -/
def advance (lexer : Lexer) : Except Fault (Bool × Lexer) := do
  let lexer ← orMistake lexer.toNextToken?
  match lexer.cursor.peek with
  | none => return (true, ← orMistake (lexer.unwind (-1)).dropMark?)
  | some c =>
    if c = '"' || c = '\'' then return (false, ← lexer.quoted (c = '"'))
    else return (false, ← orMistake (lexer.token? c))

/-- The tokens in front of a fault.  Those that may turn out to lie behind the beginning of a key
are not told from what follows, so they are no tokens yet. -/
def endAt (fault : Fault) (lexer : Lexer) : List Token :=
  let pending := lexer.marks.filter fun mark => !lexer.isStale mark
  let count := pending.foldl (fun count mark => min count mark.count) lexer.count
  lexer.tokens.reverse.take count ++ [.broken fault]

/-- The tokens up to the end or a fault.  Each round reads one token. -/
def run : Nat → Lexer → List Token
  | 0, lexer => lexer.endAt .mistake
  | rounds + 1, lexer =>
    match lexer.advance with
    | .ok (true, lexer) => lexer.tokens.reverse
    | .ok (false, lexer) => run rounds lexer
    | .error fault => lexer.endAt fault

end Lexer

/-- The tokens of a text. -/
def tokens (text : List Char) : List Token :=
  (Lexer.start text).run (text.length + 1)

end Yaml
end SorobanLint
