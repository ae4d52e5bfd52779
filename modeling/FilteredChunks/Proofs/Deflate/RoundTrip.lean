import FilteredChunks.Deflate.Zlib
import FilteredChunks.Proofs.Deflate.FixedCodes
import FilteredChunks.Proofs.Filter.Lossless

/-!
# Inflating undoes deflating

Blocks are read back, stored or in the fixed codes (`inflateBlocks_storedBlocks`,
`inflateBlocks_fixedBlock`), and after them the checksum.  So the zlib format is a compression that loses
nothing, at any level (`Compression.isLossless_zlib`).
-/

namespace FilteredChunks

namespace Deflate

/-! ### Stored blocks -/

theorem inflateStored_append {bytes : Bytes} (h : bytes.length ≤ maxStored) (pending : List Bool)
    (more : Bytes) (out : Array UInt8) :
    inflateStored ⟨pending, Bytes.littleEndian 2 bytes.length ++
        Bytes.littleEndian 2 (maxStored - bytes.length) ++ bytes ++ more⟩ out =
      some (out ++ bytes.toArray, .ofBytes more) := by
  have hlen : (Bytes.littleEndian 2 bytes.length).length = 2 := Bytes.length_littleEndian _ _
  have hheader : (Bytes.littleEndian 2 bytes.length ++
      Bytes.littleEndian 2 (maxStored - bytes.length)).length = 4 := by
    rw [List.length_append, hlen, Bytes.length_littleEndian]
  have hlt : bytes.length < Bytes.span 2 := Nat.lt_succ_of_le h
  have hlt' : maxStored - bytes.length < Bytes.span 2 := Nat.lt_succ_of_le (Nat.sub_le _ _)
  have hsum : bytes.length + (maxStored - bytes.length) = 65535 := Nat.add_sub_cancel' h
  have htake := Cursor.takeBytes_append hheader (bytes ++ more)
  rw [inflateStored, Cursor.align, List.append_assoc]
  dsimp only
  rw [show (⟨[], Bytes.littleEndian 2 bytes.length ++
      Bytes.littleEndian 2 (maxStored - bytes.length) ++ (bytes ++ more)⟩ : Cursor) = .ofBytes _ from rfl,
    htake, Option.bind_some]
  dsimp only
  rw [List.take_left' hlen, List.drop_left' hlen, Bytes.fromLittleEndian_littleEndian,
    Bytes.fromLittleEndian_littleEndian, Nat.mod_eq_of_lt hlt, Nat.mod_eq_of_lt hlt',
    if_neg (not_not.2 hsum), Cursor.takeBytes_append rfl]
  rfl

theorem inflateBlock_storedBlock {bytes : Bytes} (h : bytes.length ≤ maxStored) (isLast : Bool)
    (more : Bytes) (out : Array UInt8) :
    ∃ c, (Cursor.ofBytes (storedBlock isLast bytes ++ more)).next = some (isLast, c) ∧
      inflateBlock c out = some (out ++ bytes.toArray, .ofBytes more) := by
  cases isLast with
  | true => exact ⟨_, rfl, inflateStored_append h _ more out⟩
  | false => exact ⟨_, rfl, inflateStored_append h _ more out⟩

theorem inflateBlocks_of_last {c rest rest' : Cursor} {out out' : Array UInt8}
    (hnext : c.next = some (true, rest)) (hblock : inflateBlock rest out = some (out', rest')) :
    inflateBlocks c out = some (out', rest') := by
  rw [inflateBlocks]
  split
  · next h => cases hnext.symm.trans h
  · next h =>
    cases hnext.symm.trans h
    split
    · next h' => cases hblock.symm.trans h'
    · next h' =>
      cases hblock.symm.trans h'
      rfl

theorem inflateBlocks_of_not_last {c rest rest' : Cursor} {out out' : Array UInt8}
    (hnext : c.next = some (false, rest)) (hblock : inflateBlock rest out = some (out', rest')) :
    inflateBlocks c out = inflateBlocks rest' out' := by
  rw [inflateBlocks]
  split
  · next h => cases hnext.symm.trans h
  · next h =>
    cases hnext.symm.trans h
    split
    · next h' => cases hblock.symm.trans h'
    · next h' =>
      cases hblock.symm.trans h'
      rfl

/-- **Stored blocks are read back.** -/
theorem inflateBlocks_storedBlocks (bytes more : Bytes) (out : Array UInt8) :
    inflateBlocks (.ofBytes (storedBlocks bytes ++ more)) out =
      some (out ++ bytes.toArray, .ofBytes more) := by
  fun_induction storedBlocks bytes generalizing out with
  | case1 bytes hlt =>
    have hle : bytes.length ≤ maxStored := by
      simp only [fullStored, maxStored] at *
      omega
    obtain ⟨c, hnext, hblock⟩ := inflateBlock_storedBlock hle true more out
    exact inflateBlocks_of_last hnext hblock
  | case2 bytes hge ih =>
    have hle : (bytes.take fullStored).length ≤ maxStored := by
      simp only [List.length_take, fullStored, maxStored]
      omega
    obtain ⟨c, hnext, hblock⟩ := inflateBlock_storedBlock hle false
      (storedBlocks (bytes.drop fullStored) ++ more) out
    have hjoin : (bytes.take fullStored).toArray ++ (bytes.drop fullStored).toArray =
        bytes.toArray := by simp
    rw [List.append_assoc, inflateBlocks_of_not_last hnext hblock, ih, Array.append_assoc, hjoin]

theorem length_storedBlocks_le (bytes : Bytes) :
    (storedBlocks bytes).length ≤ bytes.length + 5 * (bytes.length / fullStored + 1) := by
  have hblock (isLast : Bool) (bytes : Bytes) :
      (storedBlock isLast bytes).length = bytes.length + 5 := by
    simp only [storedBlock, List.length_cons, List.length_append, Bytes.length_littleEndian]
    omega
  fun_induction storedBlocks bytes with
  | case1 bytes hlt =>
    rw [hblock, fullStored]
    omega
  | case2 bytes hge ih =>
    rw [List.length_append, hblock]
    simp only [List.length_take, List.length_drop, fullStored] at *
    omega

/-! ### Blocks with the fixed codes -/

/-- **A block with the fixed codes is read back**, and what comes after it is left. -/
theorem inflateBlocks_fixedBlock {items : List Item} (hfits : ∀ item ∈ items, item.Fits)
    (more : Bytes) :
    ∃ c, inflateBlocks (.ofBytes (fixedBlock items ++ more)) #[] = some (writeItems items #[], c) ∧
      c.align = .ofBytes more := by
  obtain ⟨padding, hpack, hpadding⟩ :=
    bits_pack ([true, true, false] ++ items.flatMap itemBits ++ itemBits .stop)
  have hbits : (fixedBlock items ++ more).flatMap bitsOf =
      true :: (lowFirst 2 1 ++ (items.flatMap itemBits ++ (itemBits .stop ++
        (padding ++ more.flatMap bitsOf)))) := by
    rw [List.flatMap_append, fixedBlock, hpack]
    simp only [List.append_assoc]
    rfl
  have hstart := Cursor.at_ofBytes (fixedBlock items ++ more)
  rw [hbits] at hstart
  obtain ⟨c₁, hnext, hc₁⟩ := hstart.next
  obtain ⟨c₂, hkind, hc₂⟩ := hc₁.number (by decide)
  obtain ⟨c₃, hitems, hc₃⟩ := inflateItems_itemBits hfits hc₂ #[]
  refine ⟨c₃, inflateBlocks_of_last hnext ?_, hc₃.align hpadding⟩
  rw [inflateBlock, hkind, Option.bind_some]
  exact hitems

/-! ### Streams -/

/-- What was deflated is inflated, and what comes after it is left. -/
theorem inflateBlocks_deflate (level : Nat) (bytes more : Bytes) :
    ∃ out c, inflateBlocks (.ofBytes (deflate level bytes ++ more)) #[] = some (out, c) ∧
      out.toList = bytes ∧ c.align = .ofBytes more := by
  have hstored : ∃ out c, inflateBlocks (.ofBytes (storedBlocks bytes ++ more)) #[] = some (out, c) ∧
      out.toList = bytes ∧ c.align = .ofBytes more :=
    ⟨_, _, inflateBlocks_storedBlocks bytes more #[], by simp, rfl⟩
  rw [deflate]
  dsimp only
  split
  · exact hstored
  split
  · obtain ⟨hfits, hwrite⟩ := writeItems_itemsOf level bytes
    obtain ⟨c, hblock, halign⟩ := inflateBlocks_fixedBlock hfits more
    exact ⟨_, c, hblock, hwrite, halign⟩
  · exact hstored

theorem length_deflate_le (level : Nat) (bytes : Bytes) :
    (deflate level bytes).length ≤ (storedBlocks bytes).length := by
  rw [deflate]
  dsimp only
  split
  · exact Nat.le_refl _
  split
  · next h => exact Nat.le_of_lt h
  · exact Nat.le_refl _

theorem adler32_lt (bytes : Bytes) : adler32 bytes < Bytes.span 4 := by
  have hsums : (adlerSums bytes).1 < 65536 ∧ (adlerSums bytes).2 < 65536 := by
    refine List.foldlRecOn (motive := fun s : Nat × Nat => s.1 < 65536 ∧ s.2 < 65536) bytes _
      (by decide) ?_
    intro s _ byte _
    dsimp only
    omega
  have hspan : Bytes.span 4 = 65536 * 65536 := by decide
  rw [adler32, hspan]
  dsimp only
  omega

/-- **What the zlib format compresses it expands again.** -/
theorem zlibExpand_zlibCompress (level : Nat) (bytes : Bytes) :
    zlibExpand (zlibCompress level bytes) = some bytes := by
  obtain ⟨out, c, hinflate, rfl, halign⟩ :=
    inflateBlocks_deflate level bytes (Bytes.littleEndian 4 (adler32 bytes)).reverse
  have hsum : (Bytes.littleEndian 4 (adler32 out.toList)).reverse.length = 4 := by simp
  have htake := Cursor.takeBytes_append hsum []
  rw [List.append_nil] at htake
  rw [zlibCompress, zlibHeader, List.append_assoc]
  generalize hflags : (if level ≤ 1 then 0x01 else if level ≤ 5 then 0x5e else if level = 6 then 0x9c
    else 0xda : UInt8) = flags
  have hheader : isZlibHeader 0x78 flags = true := by
    rw [← hflags]
    split
    · decide
    split
    · decide
    split
    · decide
    · decide
  rw [List.cons_append, List.cons_append, List.nil_append, zlibExpand, if_pos hheader, hinflate,
    Option.bind_some]
  dsimp only
  rw [halign, htake, Option.bind_some]
  dsimp only
  rw [List.reverse_reverse, Bytes.fromLittleEndian_littleEndian, Nat.mod_eq_of_lt (adler32_lt _),
    if_pos rfl]

end Deflate

/-- **The zlib format loses nothing**, at any level. -/
theorem Compression.isLossless_zlib : Compression.zlib.IsLossless := by
  refine ⟨fun level bytes _ => ⟨_, rfl⟩, fun level bytes output _ h => ?_,
    fun level bytes output _ h => ?_, fun level bytes output _ h => ?_⟩
  · cases h
    exact Deflate.zlibExpand_zlibCompress level bytes
  · cases h
    exact List.cons_ne_nil _ _
  · cases h
    have hdeflate := Deflate.length_deflate_le level bytes
    have hstored := Deflate.length_storedBlocks_le bytes
    rw [Deflate.zlibCompress, List.length_append, List.length_append, List.length_reverse,
      Bytes.length_littleEndian, growth]
    simp only [Deflate.zlibHeader, Deflate.fullStored, List.length_cons, List.length_nil] at *
    omega

end FilteredChunks
