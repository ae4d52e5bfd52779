import FilteredChunks.Bytes
import FilteredChunks.ChunkOffset

/-!
# The synthetic dataset

A two-dimensional dataset of 32-bit integers, row by row: an element with an even number holds that
number, the others hold one.  Its chunks tile it row by row; what a chunk has beyond the edge of the
dataset is zero.
-/

namespace FilteredChunks

/-- The extents of a dataset and of its chunks. -/
structure SyntheticDataset where
  rows : Nat
  cols : Nat
  chunkRows : Nat
  chunkCols : Nat
  deriving DecidableEq

/-- Extents that make no dataset. -/
inductive ShapeFault
  | emptyDataset
  | emptyChunk
  | chunkTooLarge (chunkRows chunkCols rows cols : Nat)
  deriving DecidableEq

def ShapeFault.message : ShapeFault → String
  | emptyDataset => "dataset dimensions must be non-zero"
  | emptyChunk => "chunk dimensions must be non-zero"
  | chunkTooLarge chunkRows chunkCols rows cols =>
    s!"chunk {chunkRows}x{chunkCols} exceeds dataset {rows}x{cols}"

namespace SyntheticDataset

/-- Bytes of one element. -/
def elementSize : Nat := 4

/-- A dataset with the given extents. -/
def make (rows cols chunkRows chunkCols : Nat) : Except ShapeFault SyntheticDataset :=
  if rows = 0 ∨ cols = 0 then .error .emptyDataset
  else if chunkRows = 0 ∨ chunkCols = 0 then .error .emptyChunk
  else if rows < chunkRows ∨ cols < chunkCols then
    .error (.chunkTooLarge chunkRows chunkCols rows cols)
  else .ok ⟨rows, cols, chunkRows, chunkCols⟩

variable (d : SyntheticDataset)

/-- What an element holds, before it is cut to 32 bits. -/
def element (row col : Nat) : Nat :=
  let number := row * d.cols + col
  if number % 2 = 0 then number else 1

/-- The element as a signed 32-bit number. -/
def value (row col : Nat) : Int := Int.bmod (d.element row col) UInt32.size

/-- Number of chunks side by side. -/
def gridCols : Nat := (d.cols + d.chunkCols - 1) / d.chunkCols

/-- Number of chunks below each other. -/
def gridRows : Nat := (d.rows + d.chunkRows - 1) / d.chunkRows

def chunkCount : Nat := d.gridRows * d.gridCols

def chunkBytes : Nat := d.chunkRows * d.chunkCols * elementSize

/-- Whether there can be a buffer for a chunk. -/
def chunksFit : Bool := d.chunkBytes ≤ Bytes.maxLength

def totalBytes : Nat := d.rows * d.cols * elementSize

/-- The bytes of one place, which are zero beyond the edge. -/
def cell (row col : Nat) : Bytes :=
  Bytes.littleEndian elementSize (if row < d.rows ∧ col < d.cols then d.element row col else 0)

/-- First row and column of a chunk. -/
def origin (index : Nat) : Nat × Nat :=
  (index / d.gridCols * d.chunkRows, index % d.gridCols * d.chunkCols)

/-- A chunk by its number. -/
def chunk (index : Nat) : Chunk :=
  let (row, col) := d.origin index
  { index := index
    offset := [UInt64.ofNat row, UInt64.ofNat col]
    data := (List.range d.chunkRows).flatMap fun r =>
      (List.range d.chunkCols).flatMap fun c => d.cell (row + r) (col + c) }

/-- All chunks in order. -/
def chunks : List Chunk := (List.range d.chunkCount).map d.chunk

end SyntheticDataset

end FilteredChunks
