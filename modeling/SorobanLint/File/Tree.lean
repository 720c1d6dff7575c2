import SorobanLint.File.Path
import SorobanLint.Order
import SorobanLint.Text.Lines
import SorobanLint.Text.Utf8

/-!
# File trees

A directory holds files and directories under distinct names.  A path is followed name by name;
what lies above the tree holds nothing but the tree.  A file may be one that cannot be read, and an
entry may be barred: its name is listed, but all that is asked about it is refused, as in a
directory that may be listed and not entered.  Every directory can be listed, and nothing changes
while the tree is looked into.
-/

namespace SorobanLint

/-- Why nothing can be read at a path. -/
inductive AccessError where
  | notFound
  | notDirectory
  | isDirectory
  | nameTooLong
  | permissionDenied
  | inputOutput
deriving DecidableEq, Repr

namespace AccessError

/-- The error at a path in words. -/
def message (error : AccessError) (path : String) : String :=
  let atPath (cause : String) : String := cause ++ ": " ++ Text.quoted path
  match error with
  | notFound => atPath "[Errno 2] No such file or directory"
  | notDirectory => atPath "[Errno 20] Not a directory"
  | isDirectory => atPath "[Errno 21] Is a directory"
  | nameTooLong => atPath "[Errno 36] File name too long"
  | permissionDenied => atPath "[Errno 13] Permission denied"
  | inputOutput => "[Errno 5] Input/output error"

/-- Whether the error says that nothing is there. -/
def isAbsence : AccessError → Bool
  | notFound => true
  | notDirectory => true
  | _ => false

end AccessError

/-- An entry of a directory that is no directory. -/
inductive Leaf where
  /-- A file with its octets. -/
  | octets (octets : List UInt8)
  /-- A file that cannot be read, with the error of reading it. -/
  | unreadable (error : AccessError)
  /-- An entry of which nothing may be known but its name. -/
  | barred
deriving DecidableEq

/-- A file or a directory, or an entry that may be either. -/
inductive FileTree where
  /-- No directory. -/
  | leaf (kind : Leaf)
  /-- A directory with its entries. -/
  | directory (entries : List (String × FileTree))
deriving Inhabited

namespace FileTree

/-- A file with its octets. -/
@[match_pattern]
abbrev file (octets : List UInt8) : FileTree := leaf (.octets octets)

/-- A directory without entries. -/
def empty : FileTree := directory []

/-- The entry with the given name. -/
def lookup? (name : String) : List (String × FileTree) → Option FileTree
  | [] => none
  | (other, tree) :: rest => if other = name then some tree else lookup? name rest

/-- The entries with a tree put under a name. -/
def putEntry (name : String) (tree : FileTree) : List (String × FileTree) →
    List (String × FileTree)
  | [] => [(name, tree)]
  | (other, old) :: rest =>
    if other = name then (name, tree) :: rest else (other, old) :: putEntry name tree rest

/-- The tree with another tree put at the given names, and directories made on the way to it. -/
def put (tree : FileTree) : List String → FileTree → FileTree
  | [], new => new
  | name :: names, new =>
    match tree with
    | leaf _ => directory [(name, put empty names new)]
    | directory entries =>
      let old := (lookup? name entries).getD empty
      directory (putEntry name (put old names new) entries)

/-- The tree with a directory made at a path, unless something is there. -/
def makeDirectory (tree : FileTree) : List String → FileTree
  | [] => tree
  | name :: names =>
    match tree with
    | leaf kind => leaf kind
    | directory entries =>
      let old := (lookup? name entries).getD empty
      directory (putEntry name (makeDirectory old names) entries)

/-- The greatest size of a name in octets. -/
def longestName : Nat := 255

/-- The greatest size of a path in octets. -/
def longestPath : Nat := 4095

/-- Why there is no entry with the given name. -/
def missing (name : String) : AccessError :=
  if longestName < name.utf8ByteSize then .nameTooLong else .notFound

/-- Whether a path is too long to be followed. -/
def isOverlong (path : Path) : Bool := longestPath < path.text.utf8ByteSize

/-- Why there is nothing inside an entry that is no directory. -/
def inside : Leaf → AccessError
  | .barred => .permissionDenied
  | _ => .notDirectory

/-- Follow names from a tree, given the trees that it lies in, the innermost first; `none` stands
for a directory above all of them. -/
def follow? : Option (FileTree × List FileTree) → List String →
    Except AccessError (Option (FileTree × List FileTree))
  | here, [] => .ok here
  | none, name :: names => if name = ".." then follow? none names else .error (missing name)
  | some (leaf kind, _), _ :: _ => .error (inside kind)
  | some (directory entries, outer), name :: names =>
    if name = ".." then
      match outer with
      | [] => follow? none names
      | parent :: rest => follow? (some (parent, rest)) names
    else
      match lookup? name entries with
      | none => .error (missing name)
      | some tree => follow? (some (tree, directory entries :: outer)) names

/-- Where a path begins: at the tree, or above it if the path is absolute. -/
def start (tree : FileTree) (path : Path) : Option (FileTree × List FileTree) :=
  if path.root = "" then some (tree, []) else none

/-- What can be known of a tree: all, or nothing if it is barred. -/
def look : FileTree → Except AccessError FileTree
  | leaf .barred => .error .permissionDenied
  | tree => .ok tree

/-- What is at a path; nothing known if it is a directory above the tree. -/
def find? (tree : FileTree) (path : Path) : Except AccessError (Option FileTree) :=
  if path.holdsNull then .error .notFound
  else if isOverlong path then .error .nameTooLong
  else
    match follow? (tree.start path) path.names with
    | .error error => .error error
    | .ok none => .ok none
    | .ok (some (found, _)) => found.look.map some

/-- Ask about what is at a path, given the answer for a directory above the tree.  If nothing is
there, the answer is no; any other error is passed on. -/
def ask (tree : FileTree) (path : Path) (above : Bool) (answer : FileTree → Bool) :
    Except AccessError Bool :=
  match tree.find? path with
  | .ok none => .ok above
  | .ok (some found) => .ok (answer found)
  | .error error => if error.isAbsence then .ok false else .error error

/-- The octets of a file. -/
def content : FileTree → Except AccessError (List UInt8)
  | file octets => .ok octets
  | leaf (.unreadable error) => .error error
  | leaf .barred => .error .permissionDenied
  | directory _ => .error .isDirectory

/-- The octets of the file at a path. -/
def read (tree : FileTree) (path : Path) : Except AccessError (List UInt8) :=
  match tree.find? path with
  | .error error => .error error
  | .ok none => .error .isDirectory
  | .ok (some found) => found.content

/-- Whether the tree is a file, which can be read or not. -/
def isFile : FileTree → Bool
  | file _ => true
  | leaf (.unreadable _) => true
  | leaf .barred => false
  | directory _ => false

/-- Whether the tree is a directory. -/
def isDirectory : FileTree → Bool
  | leaf _ => false
  | directory _ => true

mutual

/-- All that a tree at the given path holds, each entry with its path. -/
def entriesIn (path : Path) : FileTree → List (Path × FileTree)
  | leaf _ => []
  | directory entries => entriesAmong path entries

/-- All that entries of the directory at the given path are and hold, each with its path. -/
def entriesAmong (path : Path) : List (String × FileTree) → List (Path × FileTree)
  | [] => []
  | (name, tree) :: rest =>
    (path.child name, tree) :: (entriesIn (path.child name) tree ++ entriesAmong path rest)

end

/-- Whether a name comes strictly before another one, by the code points of their characters. -/
def nameBefore (a b : String) : Bool :=
  Order.before (fun c d => c.toNat < d.toNat) a.toList b.toList

/-- Whether a path may come first: paths are in the order of their names from the outside in. -/
def precedes (a b : Path) : Bool :=
  !Order.before nameBefore b.names a.names

/-- The paths of all entries below the directory at a path that are no directories, in order; none
if there is no directory.  Where the path cannot be asked about, and where a directory below it has
a path that is too long for its entries to be listed, this is the error. -/
def files (tree : FileTree) (path : Path) : Except (AccessError × Path) (List Path) :=
  match tree.find? path with
  | .error error => if error.isAbsence then .ok [] else .error (error, path)
  | .ok none => .ok []
  | .ok (some found) =>
    let entries := entriesIn path found
    match entries.find? fun (inner, entry) => entry.isDirectory && isOverlong inner with
    | some (inner, _) => .error (.nameTooLong, inner)
    | none => .ok (Order.sort precedes ((entries.filter (!·.2.isDirectory)).map (·.1)))

end FileTree
end SorobanLint
