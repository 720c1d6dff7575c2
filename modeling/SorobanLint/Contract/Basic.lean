import SorobanLint.Text.Pattern

/-!
# Contracts

The shape of a Soroban contract: its marked structs with their fields, and its `impl` blocks with
their functions and parameters.  Names and types are kept as they are written.  Line numbers count
from 1; they are integers because a contract may also be supplied from outside.
-/

namespace SorobanLint

/-- Whether an item is marked `pub`. -/
inductive Visibility where
  | pub
  | priv
deriving DecidableEq, Repr

namespace Visibility

/-- The mark of a public item, with a restriction such as `(crate)` or without. -/
def mark : Pattern :=
  .all ["pub", .maybe (.all [.spaces, "(", .many (· ≠ ')'), ")"]), .gap]

/-- The visibility of the item that the text begins with, and the text behind its mark. -/
def split (text : List Char) : Visibility × List Char :=
  match mark.match? text with
  | some found => (pub, found.stop.after)
  | none => (priv, text)

end Visibility

/-- A parameter of a function. -/
structure Param where
  /-- The name in front of the colon. -/
  name : String
  /-- The type behind the colon. -/
  typeName : String
deriving DecidableEq, Repr

/-- A field of a struct. -/
structure Field where
  /-- The name in front of the colon. -/
  name : String
  /-- The type behind the colon, with single spaces. -/
  typeName : String
  /-- Whether the field is marked `pub`. -/
  visibility : Visibility
  /-- The line of the field. -/
  line : Int
deriving DecidableEq, Repr

/-- A struct marked as a contract or a contract type. -/
structure Struct where
  /-- The name behind `struct`. -/
  name : String
  /-- The fields in order. -/
  fields : List Field
  /-- The line of the header. -/
  line : Int
  /-- The lines from the header to the end. -/
  definition : String
deriving DecidableEq, Repr

/-- A function of a marked `impl` block. -/
structure Function where
  /-- The name behind `fn`. -/
  name : String
  /-- The parameters in order, without the receiver. -/
  params : List Param
  /-- The type behind the arrow, with single spaces. -/
  returnType : Option String
  /-- Whether the function is marked `pub`. -/
  visibility : Visibility
  /-- Whether the function sets up the contract. -/
  isConstructor : Bool
  /-- The line of the header. -/
  line : Int
  /-- The lines of signature and body. -/
  definition : String
deriving DecidableEq, Repr

/-- A marked `impl` block. -/
structure ImplBlock where
  /-- The last segment of the implemented type's path. -/
  target : String
  /-- The functions in order. -/
  functions : List Function
  /-- The line of the header. -/
  line : Int
  /-- The lines from the header to the closing brace. -/
  definition : String
deriving DecidableEq, Repr

/-- What is recovered of one source file. -/
structure Contract where
  /-- The name of the first struct. -/
  name : String
  /-- The marked structs in order. -/
  types : List Struct
  /-- The marked `impl` blocks in order. -/
  impls : List ImplBlock
  /-- The source text. -/
  source : String
  /-- Where the source comes from. -/
  path : String
deriving DecidableEq, Repr

namespace Contract

/-- The functions of all blocks. -/
def functions (contract : Contract) : List Function :=
  contract.impls.flatMap (·.functions)

/-- The fields of all structs. -/
def fields (contract : Contract) : List Field :=
  contract.types.flatMap (·.fields)

end Contract
end SorobanLint
