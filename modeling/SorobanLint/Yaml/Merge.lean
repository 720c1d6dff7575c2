import SorobanLint.Yaml.Node

/-!
# Merging

Under a merge key of a mapping stands another mapping, or a sequence of mappings, whose entries are
put in front of its own.  Of several entries with the same key the last one counts, so that its own
entries win, and of a sequence the first mapping.
-/

namespace SorobanLint
namespace Yaml

/-- The nodes of a document by their numbers. -/
abbrev Nodes := Array Node

namespace Nodes

/-- The node with the given number. -/
def node (nodes : Nodes) (id : Nat) : Node := nodes[id]?.getD default

/-- The tag of the node with the given number. -/
def tag (nodes : Nodes) (id : Nat) : Tag := (nodes.node id).tag

/-- The entries of a mapping. -/
def entries (nodes : Nodes) (id : Nat) : List (Nat × Nat) :=
  match (nodes.node id).content with
  | .mapping entries => entries
  | _ => []

/-- Give a mapping other entries. -/
def setEntries (nodes : Nodes) (id : Nat) (entries : List (Nat × Nat)) : Nodes :=
  nodes.setIfInBounds id { nodes.node id with content := .mapping entries }

/-- The key that stands for its mapping where a scalar is needed is a text as well. -/
def asText (nodes : Nodes) (id : Nat) : Nodes :=
  if nodes.tag id = .value then nodes.setIfInBounds id { nodes.node id with tag := .str } else nodes

/-- The value of the first merge key of a mapping, and the other entries. -/
def firstMerge? (nodes : Nodes) (id : Nat) : Option (Nat × List (Nat × Nat)) :=
  let isMerge (entry : Nat × Nat) := nodes.tag entry.1 = .merge
  let all := nodes.entries id
  (all.find? isMerge).map fun entry => (entry.2, all.eraseP isMerge)

/-- Merge what stands under the merge keys of a mapping, behind the entries that are merged so
far.  A merge key is removed before its value is looked at, so there is an end even if a mapping is
merged into itself; each call within reduces the number of rounds. -/
def flattenFrom : Nat → Nat → List (Nat × Nat) → Nodes → Except Fault Nodes
  | 0, _, _, _ => .error .mistake
  | rounds + 1, id, merged, nodes =>
    match nodes.firstMerge? id with
    | none =>
      let own := nodes.entries id
      let nodes := own.foldl (fun nodes entry => nodes.asText entry.1) nodes
      .ok (nodes.setEntries id (merged ++ own))
    | some (source, rest) => do
      let nodes := nodes.setEntries id rest
      match (nodes.node source).content with
      | .scalar _ => .error .mistake
      | .mapping _ =>
        let nodes ← flattenFrom rounds source [] nodes
        flattenFrom rounds id (merged ++ nodes.entries source) nodes
      | .sequence sources =>
        let (nodes, lists) ← sources.foldlM (fun (nodes, lists) source => do
          match (nodes.node source).content with
          | .mapping _ =>
            let nodes ← flattenFrom rounds source [] nodes
            return (nodes, nodes.entries source :: lists)
          | _ => .error .mistake) (nodes, [])
        flattenFrom rounds id (merged ++ lists.flatten) nodes

/-- The number of entries of all mappings. -/
def entryCount (nodes : Nodes) : Nat :=
  nodes.foldl (fun count node =>
    match node.content with
    | .mapping entries => count + entries.length
    | _ => count) 0

/-- Merge what stands under the merge keys of a mapping. -/
def flatten (id : Nat) (nodes : Nodes) : Except Fault Nodes :=
  flattenFrom (nodes.entryCount + 1) id [] nodes

end Nodes
end Yaml
end SorobanLint
