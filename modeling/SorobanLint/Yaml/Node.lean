import SorobanLint.Yaml.Tag
import SorobanLint.Yaml.Token

/-!
# YAML nodes

The tokens of a text make at most one document.  Its nodes are numbered in the order in which they
begin, and a collection holds the numbers of its nodes, so that an alias is nothing but the number
of the node that its anchor names, and a node may contain itself.
-/

namespace SorobanLint
namespace Yaml

/-- What a node holds; other nodes are told by their numbers. -/
inductive Content where
  /-- A text. -/
  | scalar (text : List Char)
  /-- A sequence of nodes. -/
  | sequence (items : List Nat)
  /-- A mapping of nodes. -/
  | mapping (entries : List (Nat × Nat))
deriving Inhabited

/-- A node of a document. -/
structure Node where
  /-- The tag, which tells the type of the value. -/
  tag : Tag
  /-- What the node holds. -/
  content : Content
deriving Inhabited

/-- The nodes of a text. -/
structure Document where
  /-- The nodes in the order in which they begin. -/
  nodes : Array Node
  /-- The number of the root. -/
  root : Nat

/-- What the nodes of a document refer to, and the nodes so far. -/
structure Scope where
  /-- The prefixes of tag handles. -/
  handles : List (List Char × List Char)
  /-- The numbers of the anchored nodes. -/
  anchors : List (List Char × Nat)
  /-- The nodes so far; those that are not read to the end are empty. -/
  nodes : Array Node

/-- Where a node stands. -/
inductive Context where
  /-- In a flow collection. -/
  | flow
  /-- In a block sequence, or at the root. -/
  | block
  /-- In a block mapping, where a sequence need not be indented. -/
  | entry
deriving DecidableEq, Repr

/-- What is wrong where the tokens do not go on as they must. -/
def failAt {α : Type} : List Token → Except Fault α
  | .broken fault :: _ => .error fault
  | _ => .error .mistake

/-- The tokens, unless the text cannot be cut into further ones here. -/
def present : List Token → Except Fault (List Token)
  | .broken fault :: _ => .error fault
  | tokens => .ok tokens

namespace Scope

/-- The scope in which no document has said anything yet. -/
def initial : Scope :=
  ⟨[(['!'], ['!']), (['!', '!'], Tag.standard)], [], #[]⟩

/-- The tag that a tag name stands for; nothing if its handle is unknown. -/
def resolve? (scope : Scope) : TagName → Option (List Char)
  | .verbatim tag => some tag
  | .short handle suffix => (scope.handles.lookup handle).map (· ++ suffix)

/-- A number for a node that begins with the given anchor; no two nodes have the same anchor. -/
def reserve (scope : Scope) (anchor : Option (List Char)) : Except Fault (Nat × Scope) :=
  let id := scope.nodes.size
  let nodes := scope.nodes.push default
  match anchor with
  | none => .ok (id, { scope with nodes })
  | some name =>
    if (scope.anchors.lookup name).isSome then .error .mistake
    else .ok (id, { scope with nodes, anchors := (name, id) :: scope.anchors })

/-- The node with the given number is read. -/
def fill (scope : Scope) (id : Nat) (node : Node) : Scope :=
  { scope with nodes := scope.nodes.setIfInBounds id node }

/-- Add a node without an anchor. -/
def add (scope : Scope) (node : Node) : Nat × Scope :=
  (scope.nodes.size, { scope with nodes := scope.nodes.push node })

/-- Add the scalar of an entry that is left out. -/
def addAbsent (scope : Scope) : Nat × Scope :=
  scope.add ⟨Tag.ofPlain [], .scalar []⟩

end Scope

namespace Node

/-- The properties in front of a node. -/
structure Properties where
  /-- The name by which aliases refer to the node. -/
  anchor : Option (List Char)
  /-- The tag. -/
  tag : Option TagName

namespace Properties

/-- Read the properties of a node, an anchor and a tag in either order. -/
def read : List Token → Properties × List Token
  | .anchor name :: .tag tag :: rest => (⟨some name, some tag⟩, rest)
  | .tag tag :: .anchor name :: rest => (⟨some name, some tag⟩, rest)
  | .anchor name :: rest => (⟨some name, none⟩, rest)
  | .tag tag :: rest => (⟨none, some tag⟩, rest)
  | tokens => (⟨none, none⟩, tokens)

/-- Whether there are any. -/
def isEmpty (properties : Properties) : Bool :=
  properties.anchor.isNone && properties.tag.isNone

/-- The tag in full, if one is given. -/
def fullTag? (properties : Properties) (scope : Scope) (tokens : List Token) :
    Except Fault (Option (List Char)) :=
  match properties.tag with
  | none => .ok none
  | some name =>
    match scope.resolve? name with
    | some tag => .ok (some tag)
    | none => failAt tokens

end Properties

/-- The tag of a collection: the given one unless it leaves the choice, and else the default. -/
def tagOr (usual : Tag) : Option (List Char) → Tag
  | none => usual
  | some ['!'] => usual
  | some tag => Tag.ofText tag

/-- A scalar with the given tag; without one, only a plain scalar gets its type from its text. -/
def ofScalar (given : Option (List Char)) (isPlain : Bool) (text : List Char) : Node :=
  let isUntyped := isPlain || given = some ['!']
  ⟨tagOr (if isUntyped then Tag.ofPlain text else .str) given, .scalar text⟩

/-- A sequence with the given tag. -/
def ofItems (given : Option (List Char)) (items : List Nat) : Node :=
  ⟨tagOr .seq given, .sequence items⟩

/-- A mapping with the given tag. -/
def ofEntries (given : Option (List Char)) (entries : List (Nat × Nat)) : Node :=
  ⟨tagOr .map given, .mapping entries⟩

/-- Whether no value or key comes next in a block mapping. -/
def endsEntry : List Token → Bool
  | .key :: _ => true
  | .value :: _ => true
  | .blockEnd :: _ => true
  | _ => false

/-- Whether no item comes next in a block sequence. -/
def endsItem : List Token → Bool
  | .blockEntry :: _ => true
  | .blockEnd :: _ => true
  | _ => false

/-- Whether no node comes next in a flow collection that the given token closes. -/
def endsFlow (closer : Token) : List Token → Bool
  | [] => false
  | token :: _ => token = .flowEntry || token = closer

/-- The tokens behind the separator of a flow collection, which is needed in front of every entry
but the first. -/
def behindComma (isFirst : Bool) (tokens : List Token) : Except Fault (List Token) :=
  if isFirst then .ok tokens
  else
    match tokens with
    | .flowEntry :: rest => .ok rest
    | _ => failAt tokens

mutual

/-- Read a node and find its number.  Each call within reduces the number of rounds. -/
def read : Nat → Context → Scope → List Token → Except Fault (Nat × Scope × List Token)
  | 0, _, _, _ => .error .mistake
  | _ + 1, _, scope, .alias name :: rest =>
    match scope.anchors.lookup name with
    | some id => .ok (id, scope, rest)
    | none => .error .mistake
  | rounds + 1, context, scope, tokens => do
    let (properties, tokens) := Properties.read tokens
    let given ← properties.fullTag? scope tokens
    let tokens ← present tokens
    let (id, scope) ← scope.reserve properties.anchor
    let (node, scope, rest) ←
      match context, tokens with
      | .entry, .blockEntry :: _ => do
        let (items, scope, rest) ← readIndentless rounds scope tokens
        .ok (ofItems given items, scope, rest)
      | _, .scalar isPlain text :: rest => .ok (ofScalar given isPlain text, scope, rest)
      | _, .flowSequenceStart :: rest => do
        let (items, scope, rest) ← readFlowItems rounds true scope rest
        .ok (ofItems given items, scope, rest)
      | _, .flowMappingStart :: rest => do
        let (entries, scope, rest) ← readFlowEntries rounds true scope rest
        .ok (ofEntries given entries, scope, rest)
      | .flow, _ =>
        if properties.isEmpty then failAt tokens else .ok (ofScalar given true [], scope, tokens)
      | _, .blockSequenceStart :: rest => do
        let (items, scope, rest) ← readItems rounds scope rest
        .ok (ofItems given items, scope, rest)
      | _, .blockMappingStart :: rest => do
        let (entries, scope, rest) ← readEntries rounds scope rest
        .ok (ofEntries given entries, scope, rest)
      | _, _ =>
        if properties.isEmpty then failAt tokens else .ok (ofScalar given true [], scope, tokens)
    return (id, scope.fill id node, rest)

/-- Read a node unless it is left out. -/
def readUnless : Nat → Bool → Context → Scope → List Token →
    Except Fault (Nat × Scope × List Token)
  | rounds + 1, false, context, scope, tokens => read rounds context scope tokens
  | _, _, _, scope, tokens =>
    let (id, scope) := scope.addAbsent
    .ok (id, scope, tokens)

/-- Read the items of a block sequence and its end. -/
def readItems : Nat → Scope → List Token → Except Fault (List Nat × Scope × List Token)
  | rounds + 1, scope, .blockEntry :: rest => do
    let (item, scope, rest) ← readUnless rounds (endsItem rest) .block scope rest
    let (items, scope, rest) ← readItems rounds scope rest
    return (item :: items, scope, rest)
  | _ + 1, scope, .blockEnd :: rest => .ok ([], scope, rest)
  | _, _, tokens => failAt tokens

/-- Read the items of a block sequence that is not indented. -/
def readIndentless : Nat → Scope → List Token → Except Fault (List Nat × Scope × List Token)
  | 0, _, _ => .error .mistake
  | rounds + 1, scope, .blockEntry :: rest => do
    let isAbsent := endsItem rest || endsEntry rest
    let (item, scope, rest) ← readUnless rounds isAbsent .block scope rest
    let (items, scope, rest) ← readIndentless rounds scope rest
    return (item :: items, scope, rest)
  | _ + 1, scope, tokens => .ok ([], scope, tokens)

/-- Read the entries of a block mapping and its end. -/
def readEntries : Nat → Scope → List Token →
    Except Fault (List (Nat × Nat) × Scope × List Token)
  | rounds + 1, scope, .key :: rest => do
    let (key, scope, rest) ← readUnless rounds (endsEntry rest) .entry scope rest
    let (value, scope, rest) ←
      match rest with
      | .value :: rest => readUnless rounds (endsEntry rest) .entry scope rest
      | _ => readUnless rounds true .entry scope rest
    let (entries, scope, rest) ← readEntries rounds scope rest
    return ((key, value) :: entries, scope, rest)
  | _ + 1, scope, .blockEnd :: rest => .ok ([], scope, rest)
  | _, _, tokens => failAt tokens

/-- Read an entry behind its key's mark, in a flow collection that the given token closes. -/
def readFlowEntry : Nat → Token → Scope → List Token →
    Except Fault ((Nat × Nat) × Scope × List Token)
  | 0, _, _, _ => .error .mistake
  | rounds + 1, closer, scope, tokens => do
    let startsValue := match tokens with
      | .value :: _ => true
      | _ => false
    let (key, scope, rest) ←
      readUnless rounds (startsValue || endsFlow closer tokens) .flow scope tokens
    let (value, scope, rest) ←
      match rest with
      | .value :: rest => readUnless rounds (endsFlow closer rest) .flow scope rest
      | _ => readUnless rounds true .flow scope rest
    return ((key, value), scope, rest)

/-- Read the items of a flow sequence and its end. -/
def readFlowItems : Nat → Bool → Scope → List Token →
    Except Fault (List Nat × Scope × List Token)
  | 0, _, _, _ => .error .mistake
  | _ + 1, _, scope, .flowSequenceEnd :: rest => .ok ([], scope, rest)
  | rounds + 1, isFirst, scope, tokens => do
    match ← behindComma isFirst tokens with
    | .flowSequenceEnd :: rest => .ok ([], scope, rest)
    | tokens =>
      let (item, scope, rest) ←
        match tokens with
        | .key :: rest => do
          let (id, scope) ← scope.reserve none
          let (entry, scope, rest) ← readFlowEntry rounds .flowSequenceEnd scope rest
          .ok (id, scope.fill id (ofEntries none [entry]), rest)
        | _ => read rounds .flow scope tokens
      let (items, scope, rest) ← readFlowItems rounds false scope rest
      return (item :: items, scope, rest)

/-- Read the entries of a flow mapping and its end. -/
def readFlowEntries : Nat → Bool → Scope → List Token →
    Except Fault (List (Nat × Nat) × Scope × List Token)
  | 0, _, _, _ => .error .mistake
  | _ + 1, _, scope, .flowMappingEnd :: rest => .ok ([], scope, rest)
  | rounds + 1, isFirst, scope, tokens => do
    match ← behindComma isFirst tokens with
    | .flowMappingEnd :: rest => .ok ([], scope, rest)
    | tokens =>
      let (entry, scope, rest) ←
        match tokens with
        | .key :: rest => readFlowEntry rounds .flowMappingEnd scope rest
        | _ => do
          let (key, scope, rest) ← read rounds .flow scope tokens
          let (value, scope, rest) ← readUnless rounds true .flow scope rest
          .ok ((key, value), scope, rest)
      let (entries, scope, rest) ← readFlowEntries rounds false scope rest
      return (entry :: entries, scope, rest)

end

end Node

namespace Document

/-- Whether the token is a directive. -/
def isDirective : Token → Bool
  | .version _ => true
  | .handle _ _ => true
  | .reserved => true
  | _ => false

/-- Read the directives of a document and the mark of its beginning. -/
def readDirectives (hasVersion : Bool) (scope : Scope) :
    List Token → Except Fault (Scope × List Token)
  | .version supported :: rest =>
    if hasVersion || !supported then .error .mistake else readDirectives true scope rest
  | .handle handle replacement :: rest =>
    let isStandard := handle = ['!'] || handle = ['!', '!']
    let count := (scope.handles.filter (·.1 = handle)).length
    if count < (if isStandard then 2 else 1) then
      readDirectives hasVersion
        { scope with handles := (handle, replacement) :: scope.handles } rest
    else .error .mistake
  | .reserved :: rest => readDirectives hasVersion scope rest
  | .documentStart :: rest => .ok (scope, rest)
  | tokens => failAt tokens

/-- Whether the document is empty behind the mark of its beginning. -/
def endsDocument : List Token → Bool
  | [] => true
  | token :: _ => isDirective token || token = .documentStart || token = .documentEnd

/-- Whether a document begins with directives or the mark of its beginning. -/
def isExplicit : List Token → Bool
  | .documentEnd :: _ => false
  | tokens => endsDocument tokens

/-- Nothing but marks of a document's end may follow the only document. -/
def checkEnd (tokens : List Token) : Except Fault Unit :=
  match tokens.dropWhile (· = .documentEnd) with
  | [] => .ok ()
  | rest => failAt (rest.dropWhile isDirective)

/-- The only document of a text with the given tokens. -/
def ofTokens (tokens : List Token) : Except Fault Document := do
  let rounds := 4 * tokens.length + 4
  let (root, scope, rest) ←
    if isExplicit tokens then do
      let (scope, rest) ← readDirectives false .initial tokens
      Node.readUnless rounds (endsDocument rest) .block scope rest
    else Node.read rounds .block .initial tokens
  checkEnd rest
  return ⟨scope.nodes, root⟩

end Document
end Yaml
end SorobanLint
