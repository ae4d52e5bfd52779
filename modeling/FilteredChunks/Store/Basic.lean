import FilteredChunks.Bytes
import FilteredChunks.FilterError
import FilteredChunks.FilterMask
import FilteredChunks.Total
import Std.Data.ExtTreeMap

/-!
# Chunk stores

A store keeps the filtered bytes of each chunk under the chunk's offset, with the mask of the steps
that did not apply.  A memory store keeps them in a map, a later write replacing an earlier one.
-/

namespace FilteredChunks

/-- A destination of filtered chunks whose state is a `σ`. -/
class ChunkStore (σ : Type) where
  /-- Why a chunk would be refused, if it would. -/
  refusal? : σ → ChunkOffset → FilterMask → Bytes → Option FilterError
  /-- The store with a chunk that it does not refuse. -/
  put : σ → ChunkOffset → FilterMask → Bytes → σ

/-- A chunk as it is stored. -/
structure StoredChunk where
  mask : FilterMask
  data : Bytes
  deriving DecidableEq

/-- Chunks in memory, in the order of their offsets. -/
structure MemoryStore where
  chunks : Std.ExtTreeMap ChunkOffset StoredChunk

namespace MemoryStore

def empty : MemoryStore := ⟨∅⟩

def get? (s : MemoryStore) (offset : ChunkOffset) : Option StoredChunk := s.chunks[offset]?

/-- The store after a write. -/
def write (s : MemoryStore) (offset : ChunkOffset) (mask : FilterMask) (data : Bytes) :
    MemoryStore :=
  ⟨s.chunks.insert offset ⟨mask, data⟩⟩

/-- Number of chunks. -/
def size (s : MemoryStore) : Nat := s.chunks.size

/-- Number of bytes of all chunks. -/
def storedBytes (s : MemoryStore) : Nat := total (fun c => c.data.length) s.chunks.values

instance : ChunkStore MemoryStore where
  refusal? _ _ _ _ := none
  put := write

/-! ### Lemmas -/

/-- A write is seen at its offset only. -/
theorem get?_write (s : MemoryStore) (offset other : ChunkOffset) (mask : FilterMask)
    (data : Bytes) :
    (s.write offset mask data).get? other =
      if offset = other then some ⟨mask, data⟩ else s.get? other := by
  simp only [write, get?, Std.ExtTreeMap.getElem?_insert, Std.LawfulEqCmp.compare_eq_iff_eq]

/-- Stores that hold the same chunks are the same. -/
theorem ext_get? {s t : MemoryStore} (h : ∀ offset, s.get? offset = t.get? offset) : s = t := by
  obtain ⟨chunks⟩ := s
  obtain ⟨chunks'⟩ := t
  exact congrArg mk (Std.ExtTreeMap.ext_getElem? h)

/-- Writes at different offsets may be exchanged. -/
theorem write_comm (s : MemoryStore) {offset offset' : ChunkOffset} (h : offset ≠ offset')
    (mask mask' : FilterMask) (data data' : Bytes) :
    (s.write offset mask data).write offset' mask' data' =
      (s.write offset' mask' data').write offset mask data := by
  refine ext_get? fun other => ?_
  simp only [get?_write]
  split
  · next h' =>
    subst h'
    rw [if_neg h]
  · rfl

end MemoryStore

end FilteredChunks
