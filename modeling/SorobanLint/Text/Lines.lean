import SorobanLint.Text.Blank

/-!
# Lines

A text is cut into lines at each line terminator; a carriage return and the line feed behind it
end one line together, and no empty line follows a final terminator.  Normalising the newlines of
a text leaves its lines as they are (`splitLines_normalizeNewlines`).
-/

namespace SorobanLint
namespace Text

/-- The characters that end a line: line feed, vertical tab, form feed, carriage return, the file,
group and record separators, next line, and the line and paragraph separators. -/
def isTerminator (c : Char) : Bool :=
  let n := c.toNat
  (0x0a ≤ n && n ≤ 0x0d) || (0x1c ≤ n && n ≤ 0x1e) || n = 0x85 || n = 0x2028 || n = 0x2029

/-- The lines of a text, without their terminators. -/
def splitLines : List Char → List (List Char)
  | [] => []
  | c :: rest =>
    if c = '\r' ∧ rest.head? = some '\n' then splitLines rest
    else if isTerminator c then [] :: splitLines rest
    else consFirst c (splitLines rest)

/-- Every carriage return, with the line feed behind it if there is one, becomes a line feed. -/
def normalizeNewlines : List Char → List Char
  | [] => []
  | c :: rest =>
    if c = '\r' then
      if rest.head? = some '\n' then normalizeNewlines rest else '\n' :: normalizeNewlines rest
    else c :: normalizeNewlines rest

/-- The lines with a line feed between neighbours. -/
def joinLines (lines : List (List Char)) : List Char :=
  ['\n'].intercalate lines

/-- The number of line feeds. -/
def lineFeeds (s : List Char) : Nat :=
  s.count '\n'

/-- The lines of a string. -/
def linesOf (s : String) : List (List Char) :=
  splitLines s.toList

theorem lineFeeds_append (s t : List Char) : lineFeeds (s ++ t) = lineFeeds s + lineFeeds t :=
  List.count_append

theorem splitLines_normalizeNewlines (s : List Char) :
    splitLines (normalizeNewlines s) = splitLines s := by
  induction s with
  | nil => rfl
  | cons c rest ih =>
    by_cases hc : c = '\r'
    · subst hc
      by_cases hn : rest.head? = some '\n'
      · simp [normalizeNewlines, splitLines, hn, ih]
      · simp [normalizeNewlines, splitLines, hn, ih, isTerminator]
    · simp [normalizeNewlines, splitLines, hc, ih]

end Text
end SorobanLint
