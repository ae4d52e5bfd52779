import FilteredChunks.Bytes

/-!
# Chunk buffers

A buffer holds bytes of which the first `nbytes` count.  Codecs may leave a buffer that is shorter
than its count; then its valid bytes cannot be taken.
-/

namespace FilteredChunks

/-- Bytes with a count of valid ones. -/
structure ChunkBuffer where
  data : Bytes
  nbytes : Nat
  deriving DecidableEq

namespace ChunkBuffer

/-- Every byte is valid. -/
def ofBytes (data : Bytes) : ChunkBuffer := ⟨data, data.length⟩

/-- The first `nbytes` bytes are valid, or all if there are fewer. -/
def withValid (data : Bytes) (nbytes : Nat) : ChunkBuffer := ⟨data, min nbytes data.length⟩

def size (b : ChunkBuffer) : Nat := b.data.length

/-- The count is within the buffer. -/
def IsValid (b : ChunkBuffer) : Prop := b.nbytes ≤ b.data.length

instance (b : ChunkBuffer) : Decidable b.IsValid := inferInstanceAs (Decidable (_ ≤ _))

/-- The valid bytes, if the count is within the buffer. -/
def valid? (b : ChunkBuffer) : Option Bytes :=
  if b.IsValid then some (b.data.take b.nbytes) else none

/-- The buffer cut down to its count. -/
def toBytes (b : ChunkBuffer) : Bytes := b.data.take b.nbytes

@[simp]
theorem isValid_ofBytes (data : Bytes) : (ofBytes data).IsValid := Nat.le_refl _

@[simp]
theorem isValid_withValid (data : Bytes) (n : Nat) : (withValid data n).IsValid :=
  Nat.min_le_right _ _

@[simp]
theorem toBytes_ofBytes (data : Bytes) : (ofBytes data).toBytes = data := by
  simp [ofBytes, toBytes]

theorem valid?_eq_some_iff {b : ChunkBuffer} {bytes : Bytes} :
    b.valid? = some bytes ↔ b.IsValid ∧ bytes = b.toBytes := by
  simp only [valid?, toBytes]
  split <;> grind

theorem IsValid.valid?_eq {b : ChunkBuffer} (h : b.IsValid) : b.valid? = some b.toBytes :=
  valid?_eq_some_iff.2 ⟨h, rfl⟩

end ChunkBuffer

end FilteredChunks
