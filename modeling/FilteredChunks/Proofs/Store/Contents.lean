import FilteredChunks.Proofs.Store.Reopening

/-!
# Chunks that do not replace each other

After writes of different offsets a store holds every one of them, and no more: so does a memory store,
and so does the file that mirrors it.
-/

namespace FilteredChunks

namespace MemoryStore

theorem get?_after_of_notMem {writes : List StoreWrite} {offset : ChunkOffset}
    (h : offset ∉ writes.map StoreWrite.offset) : (after writes).get? offset = none := by
  induction writes using List.reverseRec with
  | nil => simp [after, empty, get?]
  | append_singleton writes write ih =>
    rw [List.map_append, List.mem_append, not_or] at h
    obtain ⟨hbefore, hlast⟩ := h
    rw [after_concat, get?_write, if_neg fun heq => hlast (by simp [heq])]
    exact ih hbefore

theorem get?_after_of_mem {writes : List StoreWrite} (hd : (writes.map StoreWrite.offset).Nodup)
    {write : StoreWrite} (h : write ∈ writes) :
    (after writes).get? write.offset = some ⟨write.mask, write.data⟩ := by
  induction writes using List.reverseRec with
  | nil => cases h
  | append_singleton writes last ih =>
    rw [List.map_append, List.map_singleton, List.nodup_append] at hd
    obtain ⟨hbefore, -, hlast⟩ := hd
    rw [after_concat, get?_write]
    rcases List.mem_append.1 h with h | h
    · rw [if_neg fun heq =>
        hlast _ (List.mem_map_of_mem h) _ (List.mem_singleton_self _) heq.symm]
      exact ih hbefore h
    · rw [List.mem_singleton.1 h, if_pos rfl]

theorem size_after {writes : List StoreWrite} (hd : (writes.map StoreWrite.offset).Nodup) :
    (after writes).size = writes.length := by
  induction writes using List.reverseRec with
  | nil => rfl
  | append_singleton writes last ih =>
    rw [List.map_append, List.map_singleton, List.nodup_append] at hd
    obtain ⟨hbefore, -, hlast⟩ := hd
    have hnew : (after writes).get? last.offset = none := by
      refine get?_after_of_notMem fun hmem => ?_
      exact hlast _ hmem _ (List.mem_singleton_self _) rfl
    have hnotMem : ¬ (after writes).chunks.contains last.offset = true := by
      rw [Std.ExtTreeMap.contains_eq_isSome_getElem?]
      simpa [get?] using hnew
    rw [after_concat, write, size, Std.ExtTreeMap.size_insert]
    rw [if_neg hnotMem, List.length_append]
    exact congrArg (· + 1) (ih hbefore)

end MemoryStore

namespace ChunkFile

theorem Mirrors.size {f : ChunkFile} {m : MemoryStore} (h : f.Mirrors m) : f.size = m.size := by
  have hlength := congrArg List.length h.records
  rw [List.length_map, List.length_map, ChunkFile.records, Std.ExtTreeMap.length_toList,
    Std.ExtTreeMap.length_toList] at hlength
  exact hlength

theorem size_fileOf {writes : List StoreWrite} (hd : (writes.map StoreWrite.offset).Nodup) :
    (fileOf writes).size = writes.length :=
  (mirrors_fileOf writes).size.trans (MemoryStore.size_after hd)

theorem read_fileOf {writes : List StoreWrite} (hd : (writes.map StoreWrite.offset).Nodup)
    {write : StoreWrite} (h : write ∈ writes) :
    (fileOf writes).read write.offset = .ok (some ⟨write.mask, write.data⟩) := by
  rw [(mirrors_fileOf writes).read, MemoryStore.get?_after_of_mem hd h]

end ChunkFile

end FilteredChunks
