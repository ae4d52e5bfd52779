import FilteredChunks.SyntheticDataset
import Mathlib.Data.List.Nodup

/-!
# Chunks of the synthetic dataset

A dataset whose extents were accepted, and which is not too large for its sizes to be numbers of the
machine, has chunks of `chunkBytes` bytes each, at different offsets.
-/

namespace FilteredChunks.SyntheticDataset

variable {d : SyntheticDataset}

/-- Extents that are accepted. -/
structure IsShaped (d : SyntheticDataset) : Prop where
  rows : d.chunkRows ≤ d.rows
  cols : d.chunkCols ≤ d.cols
  chunkRows : 0 < d.chunkRows
  chunkCols : 0 < d.chunkCols

theorem isShaped_of_make {rows cols chunkRows chunkCols : Nat}
    (h : make rows cols chunkRows chunkCols = .ok d) : d.IsShaped := by
  unfold make at h
  split at h
  · cases h
  split at h
  · cases h
  split at h
  · cases h
  cases h
  constructor
  all_goals dsimp only
  all_goals omega

/-- Bytes of all chunks, which are full at the edges. -/
def paddedBytes (d : SyntheticDataset) : Nat :=
  d.gridRows * d.chunkRows * (d.gridCols * d.chunkCols) * elementSize

namespace IsShaped

theorem gridRows_pos (h : d.IsShaped) : 0 < d.gridRows := by
  have := h.rows
  have := h.chunkRows
  exact Nat.div_pos (by omega) h.chunkRows

theorem gridCols_pos (h : d.IsShaped) : 0 < d.gridCols := by
  have := h.cols
  have := h.chunkCols
  exact Nat.div_pos (by omega) h.chunkCols

theorem chunkBytes_pos (h : d.IsShaped) : 0 < d.chunkBytes :=
  Nat.mul_pos (Nat.mul_pos h.chunkRows h.chunkCols) (by decide)

theorem paddedRows_le (h : d.IsShaped) : d.gridRows * d.chunkRows ≤ d.paddedBytes := by
  rw [paddedBytes, Nat.mul_assoc (d.gridRows * d.chunkRows)]
  refine Nat.le_mul_of_pos_right _ (Nat.mul_pos ?_ (by decide))
  exact Nat.mul_pos h.gridCols_pos h.chunkCols

theorem paddedCols_le (h : d.IsShaped) : d.gridCols * d.chunkCols ≤ d.paddedBytes := by
  rw [paddedBytes, Nat.mul_comm (d.gridRows * d.chunkRows), Nat.mul_assoc]
  refine Nat.le_mul_of_pos_right _ (Nat.mul_pos ?_ (by decide))
  exact Nat.mul_pos h.gridRows_pos h.chunkRows

theorem origin_fst_le (h : d.IsShaped) {index : Nat} (hindex : index < d.chunkCount) :
    (d.origin index).1 ≤ d.paddedBytes := by
  have hrow : index / d.gridCols < d.gridRows :=
    Nat.div_lt_of_lt_mul (Nat.mul_comm d.gridRows d.gridCols ▸ hindex)
  exact Nat.le_trans (Nat.mul_le_mul_right _ (Nat.le_of_lt hrow)) h.paddedRows_le

theorem origin_snd_le (h : d.IsShaped) (index : Nat) : (d.origin index).2 ≤ d.paddedBytes :=
  Nat.le_trans (Nat.mul_le_mul_right _ (Nat.le_of_lt (Nat.mod_lt index h.gridCols_pos)))
    h.paddedCols_le

end IsShaped

theorem length_flatMap_range {n k : Nat} {f : Nat → Bytes} (h : ∀ i, (f i).length = k) :
    ((List.range n).flatMap f).length = n * k := by
  induction n with
  | zero => simp
  | succ n ih =>
    rw [List.range_succ, List.flatMap_append, List.length_append, ih, Nat.succ_mul]
    simp [h]

theorem length_chunk (d : SyntheticDataset) (index : Nat) :
    (d.chunk index).data.length = d.chunkBytes := by
  have hcell (row col : Nat) : (d.cell row col).length = elementSize :=
    Bytes.length_littleEndian _ _
  unfold chunk
  dsimp only
  rw [length_flatMap_range fun r => length_flatMap_range fun c => hcell _ _, ← Nat.mul_assoc]
  rfl

theorem chunk_data_ne_nil (h : d.IsShaped) (index : Nat) : (d.chunk index).data ≠ [] := by
  rw [← List.length_pos_iff, length_chunk]
  exact h.chunkBytes_pos

theorem ofNat_inj {m n : Nat} (hm : m < UInt64.size) (hn : n < UInt64.size)
    (h : UInt64.ofNat m = UInt64.ofNat n) : m = n := by
  have := congrArg UInt64.toNat h
  rwa [UInt64.toNat_ofNat', UInt64.toNat_ofNat', Nat.mod_eq_of_lt hm, Nat.mod_eq_of_lt hn] at this

/-- **Different chunks have different offsets.** -/
theorem nodup_offsets (h : d.IsShaped) (hsize : d.paddedBytes < UInt64.size) :
    (d.chunks.map Chunk.offset).Nodup := by
  have hrow {i : Nat} (hi : i < d.chunkCount) : i / d.gridCols * d.chunkRows < UInt64.size :=
    Nat.lt_of_le_of_lt (h.origin_fst_le hi) hsize
  have hcol (i : Nat) : i % d.gridCols * d.chunkCols < UInt64.size :=
    Nat.lt_of_le_of_lt (h.origin_snd_le i) hsize
  rw [chunks, List.map_map]
  refine List.Nodup.map_on (fun i hi j hj hij => ?_) List.nodup_range
  obtain ⟨hrows, hcols⟩ : UInt64.ofNat (i / d.gridCols * d.chunkRows) =
        UInt64.ofNat (j / d.gridCols * d.chunkRows) ∧
      UInt64.ofNat (i % d.gridCols * d.chunkCols) = UInt64.ofNat (j % d.gridCols * d.chunkCols) := by
    simpa [chunk, origin] using hij
  have hdiv : i / d.gridCols = j / d.gridCols :=
    Nat.eq_of_mul_eq_mul_right h.chunkRows
      (ofNat_inj (hrow (List.mem_range.1 hi)) (hrow (List.mem_range.1 hj)) hrows)
  have hmod : i % d.gridCols = j % d.gridCols :=
    Nat.eq_of_mul_eq_mul_right h.chunkCols (ofNat_inj (hcol i) (hcol j) hcols)
  rw [← Nat.div_add_mod i d.gridCols, hdiv, hmod, Nat.div_add_mod]

end FilteredChunks.SyntheticDataset
