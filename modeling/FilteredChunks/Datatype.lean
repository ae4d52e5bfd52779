/-!
# Element types and shapes

What the filters of a dataset may ask about its data: the type of an element and the shape of a chunk.
-/

namespace FilteredChunks

/-- Kinds of element types. -/
inductive TypeClass
  | integer
  | float
  | fixedString
  | variableString
  | sequence
  | untyped
  | compound
  deriving DecidableEq

/-- The type of one element; `size` is its size in bytes. -/
structure Datatype where
  typeClass : TypeClass
  size : Nat
  deriving DecidableEq

namespace Datatype

def int32 : Datatype := ⟨.integer, 4⟩

/-- Elements of variable length are stored as references, not as element bytes. -/
def isVariableLength (t : Datatype) : Bool :=
  t.typeClass == .sequence || t.typeClass == .variableString

end Datatype

/-- The shape of a dataset or of a chunk. -/
inductive Dataspace
  /-- No elements at all. -/
  | null
  /-- Exactly one element. -/
  | scalar
  /-- A rectangular array with the given extents. -/
  | simple (dims : List UInt64)
  deriving DecidableEq

namespace Dataspace

/-- Number of elements. -/
def elements : Dataspace → Nat
  | null => 0
  | scalar => 1
  | simple dims => dims.foldl (fun n d => n * d.toNat) 1

end Dataspace

end FilteredChunks
