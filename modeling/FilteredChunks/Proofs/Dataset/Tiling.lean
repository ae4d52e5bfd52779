import FilteredChunks.Filter.Shuffle
import FilteredChunks.Proofs.Dataset

/-!
# Chunks tile the dataset

Rows and columns are cut into pieces of a chunk's extents, and chunks and the elements in them are
counted row by row: `placeOf` is where division leads to, the number of a chunk and a position in it.
`holds_iff` says that no other place holds the same row and column, and `elementAt_chunk` what the bytes
of a place are.  The main statement, `isTiled`, puts the two together: each element of the dataset is in
one place, with the bytes of its value, and all other places are padding.
-/

namespace FilteredChunks

namespace Bytes

/-- The `width` low bytes of a whole number, negative ones as two's complement. -/
def ofInt (width : Nat) (n : Int) : Bytes := littleEndian width (n % span width).toNat

theorem littleEndian_mod_span (width n : Nat) :
    littleEndian width (n % span width) = littleEndian width n := by
  have h := littleEndian_fromLittleEndian (littleEndian width n)
  rwa [length_littleEndian, fromLittleEndian_littleEndian] at h

theorem ofInt_bmod (width n : Nat) : ofInt width (Int.bmod n (span width)) = littleEndian width n := by
  have hmod : (Int.bmod n (span width) % span width).toNat = n % span width := by
    rw [Int.bmod_emod, ← Int.natCast_emod, Int.toNat_natCast]
  rw [ofInt, hmod, littleEndian_mod_span]

end Bytes

namespace SyntheticDataset

variable {d : SyntheticDataset}

/-- Number of elements of a chunk. -/
def chunkElements (d : SyntheticDataset) : Nat := d.chunkRows * d.chunkCols

/-- The bytes of the element at a position. -/
def elementAt (data : Bytes) (pos : Nat) : Bytes := (data.drop (pos * elementSize)).take elementSize

/-- A place, the number of a chunk and a position in it, is that of a row and a column: they are the
chunk's offset and the position's row and column in the chunk. -/
structure Holds (d : SyntheticDataset) (place : Nat × Nat) (row col : Nat) : Prop where
  index : place.1 < d.chunkCount
  pos : place.2 < d.chunkElements
  coordinates : ∃ first : UInt64 × UInt64, (d.chunk place.1).offset = [first.1, first.2] ∧
    row = first.1.toNat + place.2 / d.chunkCols ∧ col = first.2.toNat + place.2 % d.chunkCols

/-- The chunks of a dataset tile it. -/
structure IsTiled (d : SyntheticDataset) : Prop where
  /-- There is room for a chunk if there is for all of them. -/
  room : d.paddedBytes ≤ Bytes.maxLength → d.chunksFit = true
  full : ∀ chunk ∈ d.chunks, chunk.data.length = d.chunkBytes
  /-- Every element of the dataset is in one place. -/
  cover : ∀ row < d.rows, ∀ col < d.cols, ∃! place, d.Holds place row col
  values : ∀ row < d.rows, ∀ col < d.cols, ∀ place, d.Holds place row col →
    elementAt (d.chunk place.1).data place.2 = Bytes.ofInt elementSize (d.value row col)
  padding : ∀ place : Nat × Nat, place.1 < d.chunkCount → place.2 < d.chunkElements →
    (¬ ∃ row < d.rows, ∃ col < d.cols, d.Holds place row col) →
    elementAt (d.chunk place.1).data place.2 = List.replicate elementSize 0
  /-- Chunks begin at multiples of their extents. -/
  multiples : ∀ index < d.chunkCount, ∃ first : UInt64 × UInt64,
    (d.chunk index).offset = [first.1, first.2] ∧
      d.chunkRows ∣ first.1.toNat ∧ d.chunkCols ∣ first.2.toNat
  distinct : (d.chunks.map Chunk.offset).Nodup
  /-- Offsets are in the order of the chunks' numbers. -/
  order : ∀ i < d.chunkCount, ∀ j < d.chunkCount,
    ((d.chunk i).offset < (d.chunk j).offset ↔ i < j)

/-! ### Counting row by row -/

theorem div_cell {cols col : Nat} (row : Nat) (h : col < cols) : (row * cols + col) / cols = row := by
  rw [Nat.mul_comm, Nat.mul_add_div (Nat.zero_lt_of_lt h), Nat.div_eq_of_lt h, Nat.add_zero]

theorem mod_cell {cols col : Nat} (row : Nat) (h : col < cols) : (row * cols + col) % cols = col := by
  rw [Nat.mul_comm, Nat.mul_add_mod, Nat.mod_eq_of_lt h]

/-- Cells counted row by row come in the order of their rows, then of their columns. -/
theorem lt_iff_of_cells (cols i j : Nat) :
    i < j ↔ i / cols < j / cols ∨ i / cols = j / cols ∧ i % cols < j % cols := by
  have hi := Nat.div_add_mod i cols
  have hj := Nat.div_add_mod j cols
  constructor
  · intro hlt
    rcases Nat.lt_or_eq_of_le (Nat.div_le_div_right (c := cols) (Nat.le_of_lt hlt)) with hrow | hrow
    · exact .inl hrow
    · rw [hrow] at hi
      exact .inr ⟨hrow, by omega⟩
  · rintro (hrow | ⟨hrow, hcol⟩)
    · exact Nat.lt_of_div_lt_div hrow
    · rw [hrow] at hi
      omega

/-! ### Places -/

/-- The place of a row and a column. -/
def placeOf (d : SyntheticDataset) (row col : Nat) : Nat × Nat :=
  (row / d.chunkRows * d.gridCols + col / d.chunkCols,
    row % d.chunkRows * d.chunkCols + col % d.chunkCols)

namespace IsShaped

theorem rows_le (h : d.IsShaped) : d.rows ≤ d.gridRows * d.chunkRows := by
  have hmod := Nat.mod_lt (d.rows + d.chunkRows - 1) h.chunkRows
  have hdiv := Nat.div_add_mod (d.rows + d.chunkRows - 1) d.chunkRows
  rw [gridRows, Nat.mul_comm]
  omega

theorem cols_le (h : d.IsShaped) : d.cols ≤ d.gridCols * d.chunkCols := by
  have hmod := Nat.mod_lt (d.cols + d.chunkCols - 1) h.chunkCols
  have hdiv := Nat.div_add_mod (d.cols + d.chunkCols - 1) d.chunkCols
  rw [gridCols, Nat.mul_comm]
  omega

theorem chunkBytes_le (h : d.IsShaped) : d.chunkBytes ≤ d.paddedBytes := by
  refine Nat.mul_le_mul_right _ (Nat.mul_le_mul ?_ ?_)
  · exact Nat.le_mul_of_pos_left _ h.gridRows_pos
  · exact Nat.le_mul_of_pos_left _ h.gridCols_pos

end IsShaped

theorem offset_chunk (h : d.IsShaped) (hsize : d.paddedBytes < UInt64.size) {index : Nat}
    (hindex : index < d.chunkCount) :
    ∃ first : UInt64 × UInt64, (d.chunk index).offset = [first.1, first.2] ∧
      first.1.toNat = index / d.gridCols * d.chunkRows ∧
      first.2.toNat = index % d.gridCols * d.chunkCols := by
  refine ⟨(UInt64.ofNat (d.origin index).1, UInt64.ofNat (d.origin index).2), rfl, ?_, ?_⟩
  · exact UInt64.toNat_ofNat_of_lt' (Nat.lt_of_le_of_lt (h.origin_fst_le hindex) hsize)
  · exact UInt64.toNat_ofNat_of_lt' (Nat.lt_of_le_of_lt (h.origin_snd_le index) hsize)

/-- **A row and a column have one place**, if chunks reach them. -/
theorem holds_iff (h : d.IsShaped) (hsize : d.paddedBytes < UInt64.size) {place : Nat × Nat}
    {row col : Nat} :
    d.Holds place row col ↔ place = d.placeOf row col ∧
      row < d.gridRows * d.chunkRows ∧ col < d.gridCols * d.chunkCols := by
  constructor
  · rintro ⟨hindex, hpos, first, hoffset, rfl, rfl⟩
    obtain ⟨first', hoffset', hrow, hcol⟩ := offset_chunk h hsize hindex
    obtain ⟨hfst, hsnd⟩ : first.1 = first'.1 ∧ first.2 = first'.2 := by
      simpa using hoffset.symm.trans hoffset'
    rw [hfst, hsnd, hrow, hcol]
    have hgridRow : place.1 / d.gridCols < d.gridRows :=
      Nat.div_lt_of_lt_mul (Nat.mul_comm d.gridRows d.gridCols ▸ hindex)
    have hgridCol : place.1 % d.gridCols < d.gridCols := Nat.mod_lt _ h.gridCols_pos
    have hposRow : place.2 / d.chunkCols < d.chunkRows :=
      Nat.div_lt_of_lt_mul (Nat.mul_comm d.chunkRows d.chunkCols ▸ hpos)
    have hposCol : place.2 % d.chunkCols < d.chunkCols := Nat.mod_lt _ h.chunkCols
    refine ⟨?_, Shuffle.cell_lt hgridRow hposRow, Shuffle.cell_lt hgridCol hposCol⟩
    rw [placeOf, div_cell _ hposRow, mod_cell _ hposRow, div_cell _ hposCol, mod_cell _ hposCol,
      Nat.div_add_mod', Nat.div_add_mod']
  · rintro ⟨rfl, hrow, hcol⟩
    have hgridRow : row / d.chunkRows < d.gridRows := (Nat.div_lt_iff_lt_mul h.chunkRows).2 hrow
    have hgridCol : col / d.chunkCols < d.gridCols := (Nat.div_lt_iff_lt_mul h.chunkCols).2 hcol
    have hposRow : row % d.chunkRows < d.chunkRows := Nat.mod_lt _ h.chunkRows
    have hposCol : col % d.chunkCols < d.chunkCols := Nat.mod_lt _ h.chunkCols
    have hindex : (d.placeOf row col).1 < d.chunkCount := Shuffle.cell_lt hgridRow hgridCol
    obtain ⟨first, hoffset, hfst, hsnd⟩ := offset_chunk h hsize hindex
    refine ⟨hindex, Shuffle.cell_lt hposRow hposCol, first, hoffset, ?_, ?_⟩
    · rw [hfst, placeOf, div_cell _ hgridCol, div_cell _ hposCol, Nat.div_add_mod']
    · rw [hsnd, placeOf, mod_cell _ hgridCol, mod_cell _ hposCol, Nat.div_add_mod']

/-! ### Bytes -/

/-- Some bytes of one of several pieces of one length. -/
theorem take_drop_flatMap_range {n k i j m : Nat} {f : Nat → Bytes} (h : ∀ i, (f i).length = k)
    (hi : i < n) (hj : j + m ≤ k) :
    (((List.range n).flatMap f).drop (i * k + j)).take m = ((f i).drop j).take m := by
  induction n with
  | zero => omega
  | succ n ih =>
    have hlength : ((List.range n).flatMap f).length = n * k := length_flatMap_range h
    rw [List.range_succ, List.flatMap_append, List.flatMap_singleton]
    rcases Nat.lt_or_eq_of_le (Nat.le_of_lt_succ hi) with hlt | rfl
    · -- the bytes are all in the pieces before the last one
      have hend : i * k + k ≤ n * k := by
        rw [← Nat.succ_mul]
        exact Nat.mul_le_mul_right k hlt
      rw [List.drop_append_of_le_length (by omega), List.take_append_of_le_length, ih hlt]
      rw [List.length_drop]
      omega
    · rw [← hlength, List.drop_append, List.drop_of_length_le (Nat.le_add_right _ _),
        Nat.add_sub_cancel_left, List.nil_append]

theorem elementAt_chunk (h : d.IsShaped) (hsize : d.paddedBytes < UInt64.size)
    {place : Nat × Nat} {row col : Nat} (hplace : d.Holds place row col) :
    elementAt (d.chunk place.1).data place.2 = d.cell row col := by
  obtain ⟨hindex, hpos, first, hoffset, rfl, rfl⟩ := hplace
  obtain ⟨first', hoffset', hrow, hcol⟩ := offset_chunk h hsize hindex
  obtain ⟨hfst, hsnd⟩ : first.1 = first'.1 ∧ first.2 = first'.2 := by
    simpa using hoffset.symm.trans hoffset'
  have hposRow : place.2 / d.chunkCols < d.chunkRows :=
    Nat.div_lt_of_lt_mul (Nat.mul_comm d.chunkRows d.chunkCols ▸ hpos)
  have hposCol : place.2 % d.chunkCols < d.chunkCols := Nat.mod_lt _ h.chunkCols
  have hcell (row col : Nat) : (d.cell row col).length = elementSize := Bytes.length_littleEndian _ _
  have hline (row : Nat) : ((List.range d.chunkCols).flatMap fun c =>
      d.cell row ((d.origin place.1).2 + c)).length = d.chunkCols * elementSize :=
    length_flatMap_range fun c => hcell _ _
  have hstart : place.2 * elementSize =
      place.2 / d.chunkCols * (d.chunkCols * elementSize) + place.2 % d.chunkCols * elementSize := by
    rw [← Nat.mul_assoc, ← Nat.add_mul, Nat.div_add_mod']
  have hend : place.2 % d.chunkCols * elementSize + elementSize ≤ d.chunkCols * elementSize := by
    rw [← Nat.succ_mul]
    exact Nat.mul_le_mul_right _ hposCol
  calc elementAt (d.chunk place.1).data place.2
    -- the element is in one line of the chunk, which is one of its rows
    _ = (((List.range d.chunkCols).flatMap fun c => d.cell
          ((d.origin place.1).1 + place.2 / d.chunkCols) ((d.origin place.1).2 + c)).drop
            (place.2 % d.chunkCols * elementSize)).take elementSize := by
      rw [elementAt, hstart]
      exact take_drop_flatMap_range (fun r => hline _) hposRow hend
    -- and one of the cells of this line
    _ = d.cell ((d.origin place.1).1 + place.2 / d.chunkCols)
          ((d.origin place.1).2 + place.2 % d.chunkCols) := by
      have hone := take_drop_flatMap_range (j := 0) (m := elementSize)
        (fun c => hcell ((d.origin place.1).1 + place.2 / d.chunkCols) ((d.origin place.1).2 + c))
        hposCol (by simp)
      rwa [Nat.add_zero, List.drop_zero, List.take_of_length_le (Nat.le_of_eq (hcell _ _))] at hone
    _ = d.cell (first.1.toNat + place.2 / d.chunkCols) (first.2.toNat + place.2 % d.chunkCols) := by
      rw [hfst, hsnd, hrow, hcol]
      rfl

theorem cell_of_lt {row col : Nat} (hrow : row < d.rows) (hcol : col < d.cols) :
    d.cell row col = Bytes.ofInt elementSize (d.value row col) := by
  have hspan : UInt32.size = Bytes.span elementSize := by decide
  have hvalue : d.value row col = Int.bmod (d.element row col) (Bytes.span elementSize) :=
    congrArg (Int.bmod _) hspan
  calc d.cell row col
    _ = Bytes.littleEndian elementSize (d.element row col) := by rw [cell, if_pos ⟨hrow, hcol⟩]
    _ = Bytes.ofInt elementSize (Int.bmod (d.element row col) (Bytes.span elementSize)) :=
      (Bytes.ofInt_bmod elementSize _).symm
    _ = Bytes.ofInt elementSize (d.value row col) := by rw [hvalue]

theorem cell_of_not_lt {row col : Nat} (h : ¬ (row < d.rows ∧ col < d.cols)) :
    d.cell row col = List.replicate elementSize 0 := by
  rw [cell, if_neg h]
  rfl

/-! ### Main statement -/

theorem exists_holds (h : d.IsShaped) (hsize : d.paddedBytes < UInt64.size) {place : Nat × Nat}
    (hindex : place.1 < d.chunkCount) (hpos : place.2 < d.chunkElements) :
    ∃ row col, d.Holds place row col := by
  obtain ⟨first, hoffset, -, -⟩ := offset_chunk h hsize hindex
  exact ⟨_, _, hindex, hpos, first, hoffset, rfl, rfl⟩

/-- Offsets of chunks, compared coordinate by coordinate, are in the order of the chunks. -/
theorem offset_lt_iff (h : d.IsShaped) (hsize : d.paddedBytes < UInt64.size) {i j : Nat}
    (hi : i < d.chunkCount) (hj : j < d.chunkCount) :
    (d.chunk i).offset < (d.chunk j).offset ↔ i < j := by
  obtain ⟨first, hoffset, hrow, hcol⟩ := offset_chunk h hsize hi
  obtain ⟨first', hoffset', hrow', hcol'⟩ := offset_chunk h hsize hj
  rw [hoffset, hoffset', List.cons_lt_cons_iff, List.cons_lt_cons_iff, UInt64.lt_iff_toNat_lt,
    UInt64.lt_iff_toNat_lt, ← UInt64.toNat_inj, hrow, hrow', hcol, hcol',
    Nat.mul_lt_mul_right h.chunkRows, Nat.mul_lt_mul_right h.chunkCols,
    Nat.mul_right_cancel_iff h.chunkRows, lt_iff_of_cells d.gridCols i j]
  simp

/-- **The chunks of a dataset tile it**, if the extents are accepted and the bytes of all chunks can be
counted. -/
theorem isTiled {rows cols chunkRows chunkCols : Nat}
    (hmake : make rows cols chunkRows chunkCols = .ok d) (hsize : d.paddedBytes < UInt64.size) :
    d.IsTiled := by
  have h := isShaped_of_make hmake
  constructor
  case room => exact fun hpadded => decide_eq_true (Nat.le_trans h.chunkBytes_le hpadded)
  case full =>
    intro chunk hchunk
    obtain ⟨index, -, rfl⟩ := List.mem_map.1 hchunk
    exact length_chunk d index
  case cover =>
    intro row hrow col hcol
    have hrow' := Nat.lt_of_lt_of_le hrow h.rows_le
    have hcol' := Nat.lt_of_lt_of_le hcol h.cols_le
    refine ⟨d.placeOf row col, (holds_iff h hsize).2 ⟨rfl, hrow', hcol'⟩, fun place hplace => ?_⟩
    exact ((holds_iff h hsize).1 hplace).1
  case values =>
    intro row hrow col hcol place hplace
    rw [elementAt_chunk h hsize hplace, cell_of_lt hrow hcol]
  case padding =>
    intro place hindex hpos hnone
    obtain ⟨row, col, hplace⟩ := exists_holds h hsize hindex hpos
    rw [elementAt_chunk h hsize hplace]
    exact cell_of_not_lt fun ⟨hrow, hcol⟩ => hnone ⟨row, hrow, col, hcol, hplace⟩
  case multiples =>
    intro index hindex
    obtain ⟨first, hoffset, hrow, hcol⟩ := offset_chunk h hsize hindex
    exact ⟨first, hoffset, hrow ▸ Nat.dvd_mul_left _ _, hcol ▸ Nat.dvd_mul_left _ _⟩
  case distinct => exact nodup_offsets h hsize
  case order => exact fun i hi j hj => offset_lt_iff h hsize hi hj

/-- Chunks of two rows and two columns hang over both edges of a dataset of three rows and three columns:
the last one has one element and three places of padding. -/
theorem isTiled_ragged :
    make 3 3 2 2 = .ok ⟨3, 3, 2, 2⟩ ∧ paddedBytes ⟨3, 3, 2, 2⟩ < UInt64.size ∧
      IsTiled ⟨3, 3, 2, 2⟩ ∧ Holds ⟨3, 3, 2, 2⟩ (3, 0) 2 2 ∧
      (chunk ⟨3, 3, 2, 2⟩ 3).data = [8, 0, 0, 0, 0, 0, 0, 0, 0, 0, 0, 0, 0, 0, 0, 0] := by
  have hmake : make 3 3 2 2 = .ok ⟨3, 3, 2, 2⟩ := rfl
  have hsize : paddedBytes ⟨3, 3, 2, 2⟩ < UInt64.size := by decide
  have htiled : IsTiled ⟨3, 3, 2, 2⟩ := isTiled hmake hsize
  have hlast : Holds ⟨3, 3, 2, 2⟩ (3, 0) 2 2 := ⟨by decide, by decide, (2, 2), by decide⟩
  exact ⟨hmake, hsize, htiled, hlast, by decide⟩

end SyntheticDataset

end FilteredChunks
