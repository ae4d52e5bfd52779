import FilteredChunks.ChunkOffset
import FilteredChunks.FilterMask

/-!
# The outcome of writing one chunk
-/

namespace FilteredChunks

/-- A chunk that was filtered and stored. -/
structure ChunkWrite where
  index : Nat
  offset : ChunkOffset
  rawBytes : Nat
  storedBytes : Nat
  mask : FilterMask
  deriving DecidableEq

/-- A quotient of sizes. -/
def sizeRatio (part whole : Nat) : Float := part.toUInt64.toFloat / whole.toUInt64.toFloat

namespace ChunkWrite

/-- Stored size by raw size; 1 for a chunk without bytes. -/
def ratio (w : ChunkWrite) : Float :=
  if w.rawBytes = 0 then 1.0 else sizeRatio w.storedBytes w.rawBytes

end ChunkWrite

end FilteredChunks
