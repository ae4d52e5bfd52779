/-!
# Chunk offsets

A chunk is found by the coordinates of its first element, one per dimension.  Offsets are ordered
lexicographically.
-/

namespace FilteredChunks

/-- Coordinates of a chunk's first element. -/
abbrev ChunkOffset := List UInt64

namespace ChunkOffset

/-- The coordinates in brackets, separated by a comma and a blank. -/
def text (offset : ChunkOffset) : String :=
  "[" ++ ", ".intercalate (offset.map fun c => toString c.toNat) ++ "]"

end ChunkOffset

/-- A chunk of a dataset: its number in submission order, its place and its unfiltered bytes. -/
structure Chunk where
  index : Nat
  offset : ChunkOffset
  data : List UInt8
  deriving DecidableEq

end FilteredChunks
