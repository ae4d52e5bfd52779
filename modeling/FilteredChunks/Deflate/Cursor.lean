import FilteredChunks.Bytes

/-!
# Reading bits

The bits of a compressed stream are those of its bytes, each byte from its lowest bit on.  A cursor
holds the bits of the current byte that are still to be read and the bytes after it.  Readers return
the rest; it never holds more bits than before.
-/

namespace FilteredChunks.Deflate

/-- The bits of a byte, lowest first. -/
def bitsOf (b : UInt8) : List Bool :=
  let n := b.toNat
  [n.testBit 0, n.testBit 1, n.testBit 2, n.testBit 3,
    n.testBit 4, n.testBit 5, n.testBit 6, n.testBit 7]

/-- The rest of a stream of bits. -/
structure Cursor where
  pending : List Bool
  rest : Bytes
  deriving DecidableEq

namespace Cursor

def ofBytes (bytes : Bytes) : Cursor := ⟨[], bytes⟩

/-- Number of bits left. -/
def size (c : Cursor) : Nat := c.pending.length + 8 * c.rest.length

/-- All bits left. -/
def bits (c : Cursor) : List Bool := c.pending ++ c.rest.flatMap bitsOf

/-- Reads one bit. -/
def next : Cursor → Option (Bool × Cursor)
  | ⟨b :: pending, rest⟩ => some (b, ⟨pending, rest⟩)
  | ⟨[], byte :: rest⟩ => some (byte.toNat.testBit 0, ⟨(bitsOf byte).tail, rest⟩)
  | ⟨[], []⟩ => none

/-- Reads a number of the given width, lowest bit first. -/
def number : (width : Nat) → Cursor → Option (Nat × Cursor)
  | 0, c => some (0, c)
  | width + 1, c =>
    match c.next with
    | none => none
    | some (b, c) =>
      match number width c with
      | none => none
      | some (n, c) => some (b.toNat + 2 * n, c)

/-- Drops the rest of the current byte. -/
def align (c : Cursor) : Cursor := ⟨[], c.rest⟩

/-- Reads whole bytes from the next byte boundary on. -/
def takeBytes (n : Nat) (c : Cursor) : Option (Bytes × Cursor) :=
  (Bytes.splitAt? n c.rest).map fun (bytes, rest) => (bytes, ⟨[], rest⟩)

/-! ### Lemmas -/

theorem size_of_next {c c' : Cursor} {b : Bool} (h : c.next = some (b, c')) :
    c'.size + 1 = c.size := by
  obtain ⟨pending, rest⟩ := c
  cases pending with
  | cons b' pending =>
    simp only [next, Option.some.injEq, Prod.mk.injEq] at h
    obtain ⟨-, rfl⟩ := h
    simp only [size, List.length_cons]
    omega
  | nil =>
    cases rest with
    | nil => simp [next] at h
    | cons byte rest =>
      simp only [next, Option.some.injEq, Prod.mk.injEq] at h
      obtain ⟨-, rfl⟩ := h
      simp only [size, bitsOf, List.tail_cons, List.length_cons, List.length_nil]
      omega

theorem size_of_number {width n : Nat} {c c' : Cursor} (h : c.number width = some (n, c')) :
    c'.size + width = c.size := by
  induction width generalizing c n with
  | zero =>
    simp only [number, Option.some.injEq, Prod.mk.injEq] at h
    rw [h.2, Nat.add_zero]
  | succ width ih =>
    simp only [number] at h
    split at h
    · contradiction
    · next b c1 h1 =>
      split at h
      · contradiction
      · next m c2 h2 =>
        simp only [Option.some.injEq, Prod.mk.injEq] at h
        obtain ⟨-, rfl⟩ := h
        have e1 := size_of_next h1
        have e2 := ih h2
        omega

theorem size_align_le (c : Cursor) : c.align.size ≤ c.size := by
  simp [align, size]

theorem size_of_takeBytes {n : Nat} {c c' : Cursor} {bytes : Bytes}
    (h : c.takeBytes n = some (bytes, c')) : c'.size ≤ c.size := by
  simp only [takeBytes, Bytes.splitAt?] at h
  split at h
  · simp only [Option.map_some, Option.some.injEq, Prod.mk.injEq] at h
    rw [← h.2]
    simp only [size, List.length_drop, List.length_nil]
    omega
  · simp at h

end Cursor

end FilteredChunks.Deflate
