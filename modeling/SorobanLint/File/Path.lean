import SorobanLint.Text.Blank
import SorobanLint.Text.Quoted

/-!
# Paths

A path is a list of names.  Empty names and single dots are dropped, double dots are kept, and the
path of the working directory itself is written as a dot.
-/

namespace SorobanLint

/-- The path of a file or directory. -/
structure Path where
  /-- The slashes in front of an absolute path. -/
  root : String
  /-- The names from the outside in. -/
  names : List String
deriving DecidableEq, Repr

namespace Path

/-- The slashes in front of an absolute path: one, or exactly two. -/
def rootOf (text : List Char) : String :=
  match text with
  | '/' :: '/' :: '/' :: _ => "/"
  | '/' :: '/' :: _ => "//"
  | '/' :: _ => "/"
  | _ => ""

/-- Read a path. -/
def ofText (text : String) : Path :=
  let names := (Text.pieces (· = '/') text.toList).map String.ofList
  ⟨rootOf text.toList, names.filter fun name => name ≠ "" && name ≠ "."⟩

/-- The text of a path. -/
def text (path : Path) : String :=
  if path.root = "" && path.names.isEmpty then "."
  else path.root ++ "/".intercalate path.names

/-- Whether a name holds the null character, which no name of a file does. -/
def holdsNull (path : Path) : Bool :=
  path.names.any fun name => name.toList.contains '\u0000'

/-- The path of an entry of a directory. -/
def child (path : Path) (name : String) : Path :=
  { path with names := path.names ++ [name] }

/-- The part of a name from its last dot on, unless the dot is the first or last character. -/
def suffixOf (name : List Char) : List Char :=
  let ending := (name.reverse.takeWhile (· ≠ '.')).reverse
  if ending.isEmpty || name.length ≤ ending.length + 1 then [] else '.' :: ending

/-- The suffix of the last name of a path. -/
def suffix (path : Path) : String :=
  String.ofList (suffixOf (path.names.getLastD "").toList)

end Path
end SorobanLint
