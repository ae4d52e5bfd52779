import FilteredChunks.Store.Basic

/-!
# A sample store

A memory store that may be full.  A full store refuses every write and tells what did not fit.
-/

namespace FilteredChunks

structure SampleStore where
  memory : MemoryStore
  isFull : Bool

namespace SampleStore

/-- What a full store says about a write. -/
def refusal (offset : ChunkOffset) (mask : FilterMask) (length : Nat) : FilterError :=
  let place := ", ".intercalate (offset.map fun c => toString c.toNat)
  .storage (.other s!"no space for [{place}] mask {mask.bits.toNat} len {length}")

instance : ChunkStore SampleStore where
  refusal? s offset mask data :=
    if s.isFull then some (refusal offset mask data.length) else none
  put s offset mask data := { s with memory := s.memory.write offset mask data }

end SampleStore

end FilteredChunks
