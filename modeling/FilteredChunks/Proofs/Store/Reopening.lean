import FilteredChunks.Proofs.Store.Records
import Mathlib.Data.List.Induction

/-!
# Chunk files that are closed and opened again

A chunk file that was written to, closed and opened again any number of times is the file `fileOf` of
the writes that it accepted (`run_fileOf`): the index that `put` keeps up to date is the one that
scanning rebuilds.  `Mirrors` compares a file with a memory store, and `refinesMemory` is the main
statement.
-/

namespace FilteredChunks

/-- The memory store after some writes. -/
def MemoryStore.after (writes : List StoreWrite) : MemoryStore :=
  writes.foldl (fun m write => m.write write.offset write.mask write.data) .empty

theorem MemoryStore.after_concat (writes : List StoreWrite) (write : StoreWrite) :
    MemoryStore.after (writes ++ [write]) =
      (MemoryStore.after writes).write write.offset write.mask write.data := by
  simp [MemoryStore.after]

namespace ChunkFile

/-! ### Files by their writes -/

/-- The file that was new before these writes and has not been closed since. -/
def fileOf (writes : List StoreWrite) : ChunkFile where
  content := (header ++ recordsOf writes).toArray
  fileLength := headerSize + total recordSize writes
  index := indexFrom headerSize writes ∅

theorem create_eq : create = fileOf [] := rfl

theorem image_fileOf (writes : List StoreWrite) : (fileOf writes).image = header ++ recordsOf writes :=
  rfl

theorem length_image_fileOf (writes : List StoreWrite) :
    (fileOf writes).image.length = (fileOf writes).fileLength := by
  rw [image_fileOf, List.length_append, length_recordsOf]
  rfl

theorem put_fileOf (writes : List StoreWrite) (write : StoreWrite) :
    (fileOf writes).put write.offset write.mask write.data = fileOf (writes ++ [write]) := by
  have hsize : (fileOf writes).content.size = (fileOf writes).fileLength :=
    length_image_fileOf writes
  have hcontent : (fileOf writes).content ++
      (recordHeader write.offset write.mask write.data.length ++ write.data) =
        (fileOf (writes ++ [write])).content := by
    simp [fileOf, recordsOf, record]
  have htotal : (fileOf writes).fileLength +
      ((recordHeader write.offset write.mask write.data.length).length + write.data.length) =
        (fileOf (writes ++ [write])).fileLength := by
    simp only [fileOf, total_append, total_cons, total_nil, length_recordHeader, recordSize]
    omega
  have hindex : (fileOf writes).index.insert write.offset
      ⟨(fileOf writes).fileLength +
        (recordHeader write.offset write.mask write.data.length).length, write.data.length,
        write.mask⟩ = (fileOf (writes ++ [write])).index := by
    simp only [fileOf, indexFrom_append, indexFrom, entryAt, length_recordHeader]
  rw [put, overwrite, if_pos hsize, hcontent, htotal, hindex]

/-- **Opening the file of some writes rebuilds it**, its index included. -/
theorem ofImage_fileOf {writes : List StoreWrite} (hw : ∀ write ∈ writes, Fits write) :
    ofImage (fileOf writes).image = .ok (fileOf writes) := by
  have hheader : header.length = headerSize := rfl
  have htake := take_append_of_length hheader (recordsOf writes)
  have hmagic : header.take 4 = magic := rfl
  have hversion : Bytes.fromLittleEndian ((header.drop 4).take 2) = version := rfl
  have hlength := length_image_fileOf writes
  rw [image_fileOf] at hlength ⊢
  rw [ofImage, htake]
  dsimp only
  rw [if_neg (not_not.2 hmagic), if_neg (not_not.2 hversion), scan_recordsOf hw, Except.map, hlength]
  rfl

/-! ### Files and memory stores -/

/-- A record of a file stands for a chunk: it has the chunk's mask and length, and the chunk's bytes lie
where it says. -/
structure Locates (f : ChunkFile) (r : ChunkRecord) (chunk : StoredChunk) : Prop where
  mask : r.mask = chunk.mask
  length : r.length = chunk.data.length
  bytes : ∃ before after, f.image = before ++ (chunk.data ++ after) ∧ before.length = r.position

/-- A file has a record of the very chunks that a memory store holds. -/
def Mirrors (f : ChunkFile) (m : MemoryStore) : Prop :=
  ∀ offset, Option.Rel f.Locates f.index[offset]? (m.get? offset)

theorem mirrors_create : create.Mirrors .empty := by
  intro offset
  simp [create, MemoryStore.empty, MemoryStore.get?]

theorem Locates.append {f f' : ChunkFile} {r : ChunkRecord} {chunk : StoredChunk}
    (h : f.Locates r chunk) {more : Bytes} (himage : f'.image = f.image ++ more) :
    f'.Locates r chunk := by
  obtain ⟨hmask, hlength, before, after, hbytes, hposition⟩ := h
  exact ⟨hmask, hlength, before, after ++ more, by simp [himage, hbytes], hposition⟩

theorem mirrors_fileOf (writes : List StoreWrite) :
    (fileOf writes).Mirrors (MemoryStore.after writes) := by
  induction writes using List.reverseRec with
  | nil => exact mirrors_create
  | append_singleton writes write ih =>
    intro offset
    have himage : (fileOf (writes ++ [write])).image =
        (fileOf writes).image ++ record write.offset write.mask write.data := by
      simp [image_fileOf, recordsOf]
    have hindex : (fileOf (writes ++ [write])).index =
        (fileOf writes).index.insert write.offset (entryAt (fileOf writes).fileLength write) := by
      simp only [fileOf, indexFrom_append, indexFrom]
    rw [hindex, MemoryStore.after_concat, MemoryStore.get?_write, Std.ExtTreeMap.getElem?_insert]
    simp only [Std.LawfulEqCmp.compare_eq_iff_eq]
    split
    · refine .some ⟨rfl, rfl, (fileOf writes).image ++
        recordHeader write.offset write.mask write.data.length, [], ?_, ?_⟩
      · rw [himage, record, List.append_nil, List.append_assoc]
      · rw [List.length_append, length_image_fileOf, length_recordHeader, entryAt]
    · have := ih offset
      generalize (fileOf writes).index[offset]? = r at this
      generalize (MemoryStore.after writes).get? offset = chunk at this
      cases this with
      | none => exact .none
      | some h => exact .some (h.append himage)

theorem Mirrors.read {f : ChunkFile} {m : MemoryStore} (h : f.Mirrors m) (offset : ChunkOffset) :
    f.read offset = .ok (m.get? offset) := by
  have hrel := h offset
  rw [ChunkFile.read]
  generalize f.index[offset]? = r at hrel
  generalize m.get? offset = chunk at hrel
  cases hrel with
  | none => rfl
  | @some r chunk hlocates =>
    obtain ⟨hmask, hlength, before, after, hbytes, hposition⟩ := hlocates
    have hdata : f.dataOf r = chunk.data := by
      rw [dataOf_eq, hbytes, ← hposition, hlength, List.drop_left' rfl, List.take_left' rfl]
    have htake : take r.length chunk.data = .ok (chunk.data, []) := by
      simpa using take_append_of_length hlength.symm []
    dsimp only
    rw [hdata, htake, hmask]
    rfl

theorem Mirrors.records {f : ChunkFile} {m : MemoryStore} (h : f.Mirrors m) :
    f.records.map (fun x => (x.1, x.2.mask, x.2.length)) =
      m.chunks.toList.map fun x => (x.1, x.2.mask, x.2.data.length) := by
  have hmaps : f.index.map (fun _ r => (r.mask, r.length)) =
      m.chunks.map fun _ chunk => (chunk.mask, chunk.data.length) := by
    refine Std.ExtTreeMap.ext_getElem? fun offset => ?_
    have hrel := h offset
    rw [MemoryStore.get?] at hrel
    rw [Std.ExtTreeMap.getElem?_map, Std.ExtTreeMap.getElem?_map]
    generalize f.index[offset]? = r at hrel ⊢
    generalize m.chunks[offset]? = chunk at hrel ⊢
    cases hrel with
    | none => rfl
    | some hlocates => simp [hlocates.mask, hlocates.length]
  have hlists := congrArg Std.ExtTreeMap.toList hmaps
  rw [Std.ExtTreeMap.toList_map, Std.ExtTreeMap.toList_map] at hlists
  exact hlists

/-! ### Writing and reopening -/

/-- What is done with a chunk file: a write, or closing it and opening it again. -/
inductive StoreAction
  | write (write : StoreWrite)
  | reopen

def StoreAction.isWrite : StoreAction → Bool
  | write _ => true
  | reopen => false

/-- The file after some actions.  A write that is refused leaves it as it was. -/
def run (f : ChunkFile) : List StoreAction → Except FilterError ChunkFile
  | [] => .ok f
  | .write write :: rest =>
    match f.write write.offset write.mask write.data with
    | .ok f' => f'.run rest
    | .error _ => f.run rest
  | .reopen :: rest =>
    match ofImage f.image with
    | .ok f' => f'.run rest
    | .error error => .error error

/-- The writes among some actions that a chunk file does not refuse. -/
def accepted (actions : List StoreAction) : List StoreWrite :=
  actions.filterMap fun
    | .write write => if write.offset.length ≤ maxDimensions then some write else none
    | .reopen => none

theorem write_of_le {offset : ChunkOffset} (h : offset.length ≤ maxDimensions) (f : ChunkFile)
    (mask : FilterMask) (data : Bytes) : f.write offset mask data = .ok (f.put offset mask data) := by
  rw [write, refusal?, if_neg (Nat.not_lt.2 h)]

theorem write_of_lt {offset : ChunkOffset} (h : maxDimensions < offset.length) (f : ChunkFile)
    (mask : FilterMask) (data : Bytes) :
    f.write offset mask data = .error (.storage .tooManyDimensions) := by
  rw [write, refusal?, if_pos h]

theorem accepted_filter (actions : List StoreAction) :
    accepted (actions.filter StoreAction.isWrite) = accepted actions := by
  induction actions with
  | nil => rfl
  | cons action actions ih =>
    cases action with
    | write write =>
      rw [List.filter_cons_of_pos rfl, accepted, List.filterMap_cons, accepted,
        List.filterMap_cons]
      unfold accepted at ih
      rw [ih]
    | reopen =>
      rw [List.filter_cons_of_neg (by simp [StoreAction.isWrite]), ih]
      rfl

/-- **Reopening makes no difference**: after any actions a file is that of the writes it accepted. -/
theorem run_fileOf {writes : List StoreWrite} (hw : ∀ write ∈ writes, Fits write)
    {actions : List StoreAction}
    (hd : ∀ write, .write write ∈ actions → write.data.length < UInt64.size) :
    (fileOf writes).run actions = .ok (fileOf (writes ++ accepted actions)) := by
  induction actions generalizing writes with
  | nil => rw [run, accepted, List.filterMap_nil, List.append_nil]
  | cons action actions ih =>
    have hd' : ∀ write, .write write ∈ actions → write.data.length < UInt64.size :=
      fun write hmem => hd write (List.mem_cons_of_mem _ hmem)
    cases action with
    | write write =>
      by_cases ho : write.offset.length ≤ maxDimensions
      · have hfits : ∀ other ∈ writes ++ [write], Fits other := by
          intro other hmem
          rcases List.mem_append.1 hmem with hmem | hmem
          · exact hw other hmem
          · rw [List.mem_singleton.1 hmem]
            exact ⟨ho, hd write List.mem_cons_self⟩
        have haccepted : accepted (.write write :: actions) = [write] ++ accepted actions := by
          simp [accepted, ho]
        rw [run, write_of_le ho]
        dsimp only
        rw [put_fileOf, ih hfits hd', haccepted, List.append_assoc]
      · have haccepted : accepted (.write write :: actions) = accepted actions := by
          simp [accepted, ho]
        rw [run, write_of_lt (Nat.lt_of_not_le ho), haccepted]
        exact ih hw hd'
    | reopen =>
      rw [run, ofImage_fileOf hw]
      exact ih hw hd'

theorem fits_accepted {actions : List StoreAction}
    (hd : ∀ write, .write write ∈ actions → write.data.length < UInt64.size) :
    ∀ write ∈ accepted actions, Fits write := by
  intro write hmem
  obtain ⟨action, haction, hsome⟩ := List.mem_filterMap.1 hmem
  cases action with
  | write other =>
    simp only at hsome
    split at hsome
    · next ho =>
      cases hsome
      exact ⟨ho, hd write haction⟩
    · cases hsome
  | reopen => cases hsome

/-! ### Main statement -/

/-- A chunk file is as good as the memory store after `writes`, and as long as their records. -/
structure Refines (f : ChunkFile) (writes : List StoreWrite) : Prop where
  read : ∀ offset, f.read offset = .ok ((MemoryStore.after writes).get? offset)
  records : f.records.map (fun x => (x.1, x.2.mask, x.2.length)) =
    (MemoryStore.after writes).chunks.toList.map fun x => (x.1, x.2.mask, x.2.data.length)
  fileLength : f.fileLength =
    8 + total (fun write => 16 + 8 * write.offset.length + write.data.length) writes
  size : f.image.length = f.fileLength
  /-- Opening the file once more gives the same index, positions included. -/
  reopened : ofImage f.image = .ok f
  refused : ∀ offset mask data, 65535 < offset.length →
    f.write offset mask data = .error (.storage .tooManyDimensions)
  taken : ∀ offset mask data, offset.length ≤ 65535 → ∃ f', f.write offset mask data = .ok f'

/-- **A chunk file refines a memory store across reopening.**  Whatever is written to a new file, and
however often it is closed and opened in between, it opens again, is the same as if it had never been
closed, and is as good as the memory store after the writes that it accepted.  Lengths of byte strings
have 64 bits. -/
theorem refinesMemory {actions : List StoreAction}
    (hd : ∀ write, .write write ∈ actions → write.data.length < UInt64.size) :
    ∃ f, create.run actions = .ok f ∧ create.run (actions.filter StoreAction.isWrite) = .ok f ∧
      f.Refines (accepted actions) := by
  have hnone : ∀ write ∈ ([] : List StoreWrite), Fits write := fun _ hmem => (List.not_mem_nil hmem).elim
  have hd' : ∀ write, .write write ∈ actions.filter StoreAction.isWrite →
      write.data.length < UInt64.size := fun write hmem => hd write (List.mem_filter.1 hmem).1
  refine ⟨fileOf (accepted actions), run_fileOf hnone hd, ?_, ?_⟩
  · rw [create_eq, run_fileOf hnone hd', accepted_filter]
    rfl
  · exact ⟨(mirrors_fileOf _).read, (mirrors_fileOf _).records, rfl, length_image_fileOf _,
      ofImage_fileOf (fits_accepted hd), fun _ mask data h => write_of_lt h _ mask data,
      fun _ mask data h => ⟨_, write_of_le h _ mask data⟩⟩

/-- Writes of which some replace others, one of them without bytes, and reopening in between. -/
def someActions : List StoreAction :=
  [.write ⟨[0], ⟨1⟩, [1, 2, 3]⟩, .reopen, .write ⟨[0], ⟨0⟩, []⟩, .write ⟨[4, 0], ⟨6⟩, [7]⟩, .reopen,
    .reopen, .write ⟨[4, 0], ⟨2⟩, [8, 9]⟩]

theorem refinesMemory_someActions :
    (∀ write, .write write ∈ someActions → write.data.length < UInt64.size) ∧
    ∃ f, create.run someActions = .ok f ∧ f.fileLength = 126 ∧
      f.read [0] = .ok (some ⟨⟨0⟩, []⟩) ∧ f.read [4, 0] = .ok (some ⟨⟨2⟩, [8, 9]⟩) ∧
      f.Refines (accepted someActions) := by
  have hd : ∀ write, .write write ∈ someActions → write.data.length < UInt64.size := by
    intro write hmem
    simp only [someActions, List.mem_cons, StoreAction.write.injEq, reduceCtorEq, false_or,
      List.not_mem_nil, or_false] at hmem
    rcases hmem with rfl | rfl | rfl | rfl
    · decide
    · decide
    · decide
    · decide
  obtain ⟨f, hrun, -, hrefines⟩ := refinesMemory hd
  refine ⟨hd, f, hrun, hrefines.fileLength, ?_, ?_, hrefines⟩
  · exact (hrefines.read [0]).trans (by rfl)
  · exact (hrefines.read [4, 0]).trans (by rfl)

end ChunkFile

end FilteredChunks
