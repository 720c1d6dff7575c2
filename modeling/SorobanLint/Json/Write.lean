import SorobanLint.Value.Text

/-!
# Writing JSON

Texts are written with the two-character escapes where JSON has them; the other control characters
are written by their code points, and all else stands for itself.
-/

namespace SorobanLint
namespace Json

/-- A character inside a JSON text. -/
def escape (c : Char) : List Char :=
  if c = '"' || c = '\\' then ['\\', c]
  else if c = '\n' then ['\\', 'n']
  else if c = '\r' then ['\\', 'r']
  else if c = '\t' then ['\\', 't']
  else if c.toNat = 8 then ['\\', 'b']
  else if c.toNat = 12 then ['\\', 'f']
  else if c.toNat < 0x20 then '\\' :: 'u' :: Text.hexDigits 4 c.toNat
  else [c]

/-- A text between JSON's quotes. -/
def quote (s : String) : String :=
  String.ofList ('"' :: s.toList.flatMap escape ++ ['"'])

/-- A number of double precision; JSON has no names for numbers that are not finite, and those in
common use are written. -/
def realText : Double → String
  | .nan => "NaN"
  | .infinite negative => if negative then "-Infinity" else "Infinity"
  | x => x.text

/-- The text of a key, which is always a text in JSON. -/
def keyText : Value → String
  | .null => "null"
  | .bool b => if b then "true" else "false"
  | .real x => realText x
  | value => value.text

mutual

/-- A value as JSON without blanks. -/
def write : Value → String
  | .null => "null"
  | .bool b => if b then "true" else "false"
  | .int n => toString n
  | .real x => realText x
  | .date day => quote day.text
  | .time moment => quote moment.text
  | .bytes octets => quote (Text.quotedOctets octets)
  | .string s => quote s
  | .list items => "[" ++ ",".intercalate (writeItems items) ++ "]"
  | .pair first second => "[" ++ write first ++ "," ++ write second ++ "]"
  | .set items => "[" ++ ",".intercalate (writeItems items) ++ "]"
  | .map entries => "\x7b" ++ ",".intercalate (writeEntries entries) ++ "\x7d"

/-- The items of a list as JSON. -/
def writeItems : List Value → List String
  | [] => []
  | item :: rest => write item :: writeItems rest

/-- The entries of a map as JSON. -/
def writeEntries : List (Value × Value) → List String
  | [] => []
  | (key, value) :: rest =>
    (quote (keyText key) ++ ":" ++ write value) :: writeEntries rest

end

/-- So many steps of indentation. -/
def indent (depth : Nat) : String :=
  String.ofList (List.replicate (2 * depth) ' ')

/-- Lines between brackets, or nothing between them if there are none. -/
def block (opening closing : String) (depth : Nat) (lines : List String) : String :=
  if lines.isEmpty then opening ++ closing
  else
    let inner := lines.map fun line => indent (depth + 1) ++ line
    opening ++ "\n" ++ ",\n".intercalate inner ++ "\n" ++ indent depth ++ closing

mutual

/-- A value as JSON on lines of its own, with two blanks for each step of indentation. -/
def pretty (depth : Nat) : Value → String
  | .list items => block "[" "]" depth (prettyItems (depth + 1) items)
  | .map entries => block "\x7b" "\x7d" depth (prettyEntries (depth + 1) entries)
  | value => write value

/-- The items of a list as indented JSON. -/
def prettyItems (depth : Nat) : List Value → List String
  | [] => []
  | item :: rest => pretty depth item :: prettyItems depth rest

/-- The entries of a map as indented JSON. -/
def prettyEntries (depth : Nat) : List (Value × Value) → List String
  | [] => []
  | (key, value) :: rest =>
    (quote (keyText key) ++ ": " ++ pretty depth value) :: prettyEntries depth rest

end

end Json
end SorobanLint
