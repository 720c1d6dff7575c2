import SorobanLint.Text.Base64
import SorobanLint.Yaml.Merge
import SorobanLint.Yaml.Number
import SorobanLint.Yaml.Time

/-!
# Values of YAML texts

A document is gone through level by level, from its root: a scalar gets its value as soon as it is
reached, while a collection waits until those that were reached before it are done.  So a node that
several others hold has one value, a node may hold itself, and of several faults the one on the
outermost level is told.

This is the loader that the command line gives to configuration files, which take any loader.  It
goes as deep as a text nests, where others give up, and tells mistakes of all kinds alike.
-/

namespace SorobanLint
namespace Yaml

/-- The words for a truth value, in lower case. -/
def truthWords : List (String × Bool) :=
  [("yes", true), ("no", false), ("true", true), ("false", false), ("on", true), ("off", false)]

/-- The truth value that a word in any case stands for. -/
def truthOf (text : List Char) : Except Fault Value :=
  let word := Text.lower text
  match truthWords.lookup (String.ofList word) with
  | some b => .ok (.bool b)
  | none => .error (.noTruthValue word)

/-- The octets that a text in base 64 stands for. -/
def octetsOf (text : List Char) : Except Fault Value :=
  if text.all fun c => c.toNat < 0x80 then
    match Text.base64? text with
    | some octets => .ok (.bytes octets)
    | none => .error .mistake
  else .error .mistake

namespace Nodes

/-- The text of a scalar; a mapping stands for the scalar under its key `=`.  Each call within
reduces the number of rounds. -/
def textFrom (nodes : Nodes) : Nat → Nat → Except Fault (List Char)
  | 0, _ => .error .mistake
  | rounds + 1, id =>
    match (nodes.node id).content with
    | .scalar text => .ok text
    | .sequence _ => .error .mistake
    | .mapping entries =>
      match entries.find? fun entry => nodes.tag entry.1 = .value with
      | some entry => textFrom nodes rounds entry.2
      | none => .error .mistake

/-- The text of a scalar. -/
def text (nodes : Nodes) (id : Nat) : Except Fault (List Char) :=
  nodes.textFrom (nodes.size + 1) id

/-- The day or point in time of a node, whose text must be its own. -/
def time (nodes : Nodes) (id : Nat) : Except Fault Value :=
  match (nodes.node id).content with
  | .scalar text => timeOf text
  | _ => .error .mappingAsTime

/-- The value of a scalar with the given tag. -/
def scalarValue (nodes : Nodes) (id : Nat) (tag : Tag) : Except Fault Value := do
  match tag with
  | .null => let _ ← nodes.text id; return .null
  | .bool => truthOf (← nodes.text id)
  | .int => return .int (← integerOf (← nodes.text id))
  | .float => return .real (← realOf (← nodes.text id))
  | .timestamp => let _ ← nodes.text id; nodes.time id
  | .binary => octetsOf (← nodes.text id)
  | .str => return .string (String.ofList (← nodes.text id))
  | _ => .error .mistake

end Nodes

/-- What the value of a node is made of, with other nodes told by their numbers. -/
inductive Cell where
  /-- A value on its own. -/
  | whole (value : Value)
  /-- A list. -/
  | list (items : List Nat)
  /-- A list of pairs. -/
  | pairs (entries : List (Nat × Nat))
  /-- A set. -/
  | set (keys : List Value)
  /-- A map. -/
  | map (entries : List (Value × Nat))

namespace Cell

/-- The empty collection that a tag stands for. -/
def empty? : Tag → Option Cell
  | .seq => some (list [])
  | .pairs => some (pairs [])
  | .set => some (set [])
  | .map => some (map [])
  | _ => none

/-- The cell as a value, given those of other nodes. -/
def value? (valueOf : Nat → Option Value) : Cell → Option Value
  | whole value => some value
  | list items => (items.mapM valueOf).map .list
  | pairs entries =>
    let pairOf (entry : Nat × Nat) : Option Value := do
      return .pair (← valueOf entry.1) (← valueOf entry.2)
    (entries.mapM pairOf).map .list
  | set keys => some (.set keys)
  | map entries =>
    (entries.mapM fun (entry : Value × Nat) => (valueOf entry.2).map (entry.1, ·)).map .map

end Cell

/-- How far the nodes of a document have got their values. -/
structure Loading where
  /-- The nodes, in which merge keys are gone as soon as their mapping is done. -/
  nodes : Nodes
  /-- What the nodes that are reached are made of. -/
  cells : Array (Option Cell)
  /-- The collections that wait, the last one first. -/
  waiting : List Nat

namespace Loading

/-- What a node is made of, if it is reached. -/
def cell? (loading : Loading) (id : Nat) : Option Cell := loading.cells[id]?.join

/-- Set what a node is made of. -/
def put (loading : Loading) (id : Nat) (cell : Cell) : Loading :=
  { loading with cells := loading.cells.setIfInBounds id (some cell) }

/-- Reach a node. -/
def visit (loading : Loading) (id : Nat) : Except Fault Loading :=
  if (loading.cell? id).isSome then .ok loading
  else
    let tag := loading.nodes.tag id
    match Cell.empty? tag with
    | some cell => .ok { loading.put id cell with waiting := id :: loading.waiting }
    | none => (loading.nodes.scalarValue id tag).map fun value => loading.put id (.whole value)

/-- Reach the node of a key, which must not be a collection. -/
def visitKey (loading : Loading) (id : Nat) : Except Fault (Value × Loading) := do
  let loading ← loading.visit id
  match loading.cell? id with
  | some (.whole value) => return (value, loading)
  | _ => .error .mistake

/-- Reach the keys and values of a mapping, and find what the keys stand for. -/
def visitEntries (loading : Loading) (id : Nat) : Except Fault (List (Value × Nat) × Loading) := do
  let nodes ← loading.nodes.flatten id
  (nodes.entries id).foldlM (fun (entries, loading) (key, value) => do
    let (key, loading) ← visitKey loading key
    let loading ← loading.visit value
    return (Value.insertEntry key value entries, loading)) ([], { loading with nodes })

/-- Reach the key and value of the only entry of a mapping. -/
def visitPair (loading : Loading) (id : Nat) : Except Fault ((Nat × Nat) × Loading) := do
  match (loading.nodes.node id).content with
  | .mapping [(key, value)] => return ((key, value), ← (← loading.visit key).visit value)
  | _ => .error .mistake

/-- Complete a collection. -/
def complete (loading : Loading) (id : Nat) : Except Fault Loading := do
  match loading.nodes.tag id, (loading.nodes.node id).content with
  | .seq, .sequence items => return (← items.foldlM visit loading).put id (.list items)
  | .pairs, .sequence items =>
    let (entries, loading) ← items.foldlM (fun (entries, loading) item => do
      let (entry, loading) ← visitPair loading item
      return (entry :: entries, loading)) ([], loading)
    return loading.put id (.pairs entries.reverse)
  | .set, .mapping _ =>
    let (entries, loading) ← loading.visitEntries id
    return loading.put id (.set (entries.map (·.1)))
  | .map, .mapping _ =>
    let (entries, loading) ← loading.visitEntries id
    return loading.put id (.map entries)
  | _, _ => .error .mistake

/-- Complete all collections, level by level. -/
def completeAll : Nat → Loading → Except Fault Loading
  | 0, loading => .ok loading
  | levels + 1, loading => do
    if loading.waiting.isEmpty then return loading
    let next ← loading.waiting.reverse.foldlM complete { loading with waiting := [] }
    completeAll levels next

/-- Reach all nodes of a document. -/
def ofDocument (document : Document) : Except Fault Loading := do
  let count := document.nodes.size
  let start : Loading := ⟨document.nodes, Array.replicate count none, []⟩
  completeAll (count + 1) (← start.visit document.root)

/-! ### Putting values together -/

/-- The values of nodes, as far as they are known. -/
abbrev Values := Array (Option Value)

/-- Find the values of the nodes all parts of which are known, from the last node to the first. -/
def sweep (loading : Loading) (values : Values) : Values :=
  (List.range values.size).foldr (fun id values =>
    if values[id]?.join.isSome then values
    else
      let valueOf (id : Nat) : Option Value := values[id]?.join
      match (loading.cell? id).bind (Cell.value? valueOf) with
      | some value => values.setIfInBounds id (some value)
      | none => values) values

/-- The number of known values. -/
def known (values : Values) : Nat := values.countP Option.isSome

/-- Find values until there are no more to find. -/
def settle (loading : Loading) : Nat → Values → Values
  | 0, values => values
  | rounds + 1, values =>
    let next := loading.sweep values
    if known next = known values then values else loading.settle rounds next

/-- The number of levels that are shown of a node that holds itself; the settings of a rule lie less
deep. -/
def shownLevels : Nat := 8

/-- The value of a node.  A node that holds itself has no finite value: only so many levels of it
are shown, and what lies deeper stands for something that is not empty. -/
def valueFrom (loading : Loading) (values : Values) : Nat → Nat → Value
  | 0, id => (values[id]?.join).getD (.list [.null])
  | levels + 1, id =>
    match values[id]?.join with
    | some value => value
    | none =>
      let valueOf (id : Nat) : Option Value := some (valueFrom loading values levels id)
      ((loading.cell? id).bind (Cell.value? valueOf)).getD .null

/-- The value of a node. -/
def value (loading : Loading) (id : Nat) : Value :=
  let count := loading.cells.size
  loading.valueFrom (loading.settle (count + 1) (Array.replicate count none)) shownLevels id

end Loading

namespace Document

/-- The value of a document. -/
def value (document : Document) : Except Fault Value :=
  (Loading.ofDocument document).map fun loading => loading.value document.root

end Document

/-- Whether the character may stand in a YAML text. -/
def isAllowed (c : Char) : Bool :=
  let n := c.toNat
  n = 0x09 || n = 0x0a || n = 0x0d || (0x20 ≤ n && n ≤ 0x7e) || n = 0x85 ||
    (0xa0 ≤ n && n ≤ 0xfffd) || 0x10000 ≤ n

/-- The value of a text with one document, `null` if there is none.  Carriage returns must be
normalised. -/
def load (text : List Char) : Except Fault Value := do
  if !text.all isAllowed then throw .mistake
  let tokens := tokens text
  if tokens.isEmpty then return .null
  (← Document.ofTokens tokens).value

end Yaml
end SorobanLint
