import SorobanLint.File.Tree
import SorobanLint.Rule.Configured

/-!
# Configuration files

A configuration file holds a document, whose value a loader gives.  A file that is missing or cannot
be read, and one that holds anything but a mapping, configures nothing.  Errors are octets that
encode no text, texts on which the loader fails otherwise than by a mistaken document, and paths
about which it cannot be asked whether anything is there.
-/

namespace SorobanLint
namespace ConfigFile

/-- Why a loader gives no value for a text. -/
inductive LoadError where
  /-- The text is no document. -/
  | mistake
  /-- The loader fails in another way, of a kind and with a message. -/
  | other (kind message : String)
deriving DecidableEq, Repr

/-- What gives the value of the document in a text. -/
abbrev Loader := List Char → Except LoadError Value

/-- Why a configuration file cannot be used. -/
inductive Fault where
  /-- The octets encode no text. -/
  | encoding (fault : Utf8.Fault)
  /-- The loader fails otherwise than by a mistaken document. -/
  | loader (kind message : String)
  /-- It cannot be told whether anything is at the path. -/
  | access (error : AccessError) (path : String)
deriving DecidableEq, Repr

namespace Fault

/-- The fault in words. -/
def message : Fault → String
  | encoding fault => fault.message
  | loader _ message => message
  | access error path => error.message path

end Fault

/-- The configuration in a text: its entries if it is a mapping, and none otherwise. -/
def ofText (loader : Loader) (text : List Char) : Except Fault Value :=
  match loader (Text.normalizeNewlines text) with
  | .ok (.map entries) => .ok (.map entries)
  | .ok _ => .ok (.map [])
  | .error .mistake => .ok (.map [])
  | .error (.other kind message) => .error (.loader kind message)

/-- A fault in a file that is read in one piece and then asked for more: an incomplete character
at its end is told with offsets from its own beginning. -/
def restate (fault : Utf8.Fault) : Utf8.Fault :=
  match fault.defect with
  | .cutShort => { fault with first := 0, last := fault.last - fault.first }
  | _ => fault

/-- The configuration in a file with the given octets. -/
def ofOctets (loader : Loader) (octets : List UInt8) : Except Fault Value :=
  match Utf8.decode octets with
  | .ok text => ofText loader text
  | .error fault => .error (.encoding (restate fault))

/-- The configuration at a path. -/
def load (loader : Loader) (tree : FileTree) (path : Path) : Except Fault Value :=
  match tree.ask path true fun _ => true with
  | .error error => .error (.access error path.text)
  | .ok false => .ok (.map [])
  | .ok true =>
    match tree.read path with
    | .ok octets => ofOctets loader octets
    | .error _ => .ok (.map [])

/-- The path of the configuration file: the one that is given, or else that in the environment; an
empty text names none. -/
def path? (given environment : Option String) : Option Path :=
  let named (text : Option String) : Option String := text.filter (· ≠ "")
  (named given <|> named environment).map Path.ofText

/-- The configuration in the file that is named, if one is. -/
def loadNamed (loader : Loader) (tree : FileTree) (given environment : Option String) :
    Except Fault Value :=
  match path? given environment with
  | some path => load loader tree path
  | none => .ok (.map [])

end ConfigFile
end SorobanLint
