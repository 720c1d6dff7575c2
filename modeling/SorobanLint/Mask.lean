import SorobanLint.Text.Lines

/-!
# Masking comments and literals

Everything but the scanned code is blanked out: comments, and what stands inside string and
character literals.  Masking reads one character at a time and writes one character for it, so
every column stays in place (`length_mask`); brackets are only ever counted in masked text.
-/

namespace SorobanLint

open Text

/-- What the next character belongs to. -/
inductive MaskState where
  /-- Plain code. -/
  | code
  /-- A comment that ends with its line. -/
  | lineComment
  /-- The second character of a block comment's opener. -/
  | blockOpener
  /-- The inside of a block comment. -/
  | block
  /-- The second character of a block comment's closer. -/
  | blockCloser
  /-- The inside of a string literal. -/
  | string
  /-- The character behind a backslash in a string literal. -/
  | escaped
  /-- The inside of a character literal, with so many characters left before its closing quote. -/
  | quoted (left : Nat)
deriving DecidableEq, Repr

namespace Mask

/-- Whether the character is a hexadecimal digit. -/
def isHexDigit (c : Char) : Bool :=
  c.isDigit || ('a' ≤ c && c ≤ 'f') || ('A' ≤ c && c ≤ 'F')

/-- The number of hexadecimal digits in front of the `}'` that ends a code point escape and its
literal; nothing if the text goes on otherwise. -/
def codePointLength? : List Char → Option Nat
  | [] => none
  | c :: rest =>
    if isHexDigit c then (codePointLength? rest).map (· + 1)
    else if c = '}' && rest.head? = some '\'' then some 0
    else none

/-- The length of an escape behind its backslash, if the closing quote follows it. -/
def escapeLength? (s : List Char) : Option Nat :=
  let byteEscape := match s with
    | 'x' :: a :: b :: '\'' :: _ => if isHexDigit a && isHexDigit b then some 3 else none
    | _ => none
  let codePoint := match s with
    | 'u' :: '{' :: digits =>
      match codePointLength? digits with
      | some (n + 1) => some (n + 4)
      | _ => none
    | _ => none
  let single := match s with
    | c :: '\'' :: _ => if c = '\n' then none else some 1
    | _ => none
  byteEscape <|> codePoint <|> single

/-- The length of the inside of a character literal, read behind its opening quote; nothing if no
literal stands there, as behind the quote of a lifetime. -/
def literalLength? : List Char → Option Nat
  | [] => none
  | c :: rest =>
    if c = '\\' then (escapeLength? rest).map (· + 1)
    else if c ≠ '\'' && c ≠ '\n' && rest.head? = some '\'' then some 1
    else none

/-- The character written for one that is read, and what the next one belongs to. -/
def step (state : MaskState) (c : Char) (rest : List Char) : Char × MaskState :=
  match state with
  | .code =>
    if c = '/' && rest.head? = some '/' then (' ', .lineComment)
    else if c = '/' && rest.head? = some '*' then (' ', .blockOpener)
    else if c = '"' then (c, .string)
    else if c = '\'' then
      match literalLength? rest with
      | some left => (c, .quoted left)
      | none => (c, .code)
    else (c, .code)
  | .lineComment => (' ', .lineComment)
  | .blockOpener => (' ', .block)
  | .block => (' ', if c = '*' && rest.head? = some '/' then .blockCloser else .block)
  | .blockCloser => (' ', .code)
  | .string =>
    if c = '"' then (c, .code) else (' ', if c = '\\' then .escaped else .string)
  | .escaped => (' ', .string)
  | .quoted 0 => (c, .code)
  | .quoted (left + 1) => (' ', .quoted left)

/-- The state in which the next line begins: only block comments and strings reach over lines. -/
def atLineEnd : MaskState → MaskState
  | .lineComment => .code
  | .escaped => .string
  | state => state

/-- The masked line and the state at its end. -/
def line : MaskState → List Char → List Char × MaskState
  | state, [] => ([], atLineEnd state)
  | state, c :: rest =>
    let written := step state c rest
    let masked := line written.2 rest
    (written.1 :: masked.1, masked.2)

/-- The masked lines, the first of which begins in the given state. -/
def linesFrom : MaskState → List (List Char) → List (List Char)
  | _, [] => []
  | state, text :: rest =>
    let masked := line state text
    masked.1 :: linesFrom masked.2 rest

end Mask

/-- The lines with comments and the contents of literals blanked out. -/
def mask (lines : List (List Char)) : List (List Char) :=
  Mask.linesFrom .code lines

namespace Mask

theorem length_line (state : MaskState) (text : List Char) :
    (line state text).1.length = text.length := by
  induction text generalizing state with
  | nil => rfl
  | cons c rest ih => simp [line, ih]

theorem length_linesFrom (state : MaskState) (lines : List (List Char)) :
    (linesFrom state lines).map List.length = lines.map List.length := by
  induction lines generalizing state with
  | nil => rfl
  | cons text rest ih => simp [linesFrom, length_line, ih]

end Mask

/-- Masking keeps the number of lines and the length of each. -/
theorem length_mask (lines : List (List Char)) :
    (mask lines).map List.length = lines.map List.length :=
  Mask.length_linesFrom .code lines

end SorobanLint
