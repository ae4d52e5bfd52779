import FilteredChunks.Proofs.Store.Grammar
import Mathlib.Data.List.Infix

/-!
# Chunk files that were cut off

Only whole records are read, and records can be told apart: if the records of some writes start those of
others, so do the writes (`prefix_of_recordsOf`).  So a file that was cut off either ends where a record
ends, and is opened as what it was when that record had been written, or it is not opened at all
(`opensWhereCut`).
-/

namespace FilteredChunks.ChunkFile

/-- A file after some writes, all of which it must accept. -/
def writeAll (f : ChunkFile) : List StoreWrite → Except FilterError ChunkFile
  | [] => .ok f
  | write :: writes =>
    match f.write write.offset write.mask write.data with
    | .ok f' => f'.writeAll writes
    | .error error => .error error

/-- Where the last of some records ends; without records, where the header ends. -/
def endOf (writes : List StoreWrite) : Nat := headerSize + total recordSize writes

/-- What opening the first `n` bytes of a file of some writes must do.  The writes whose records end
there are `kept`. -/
structure OpensWhereCut (writes : List StoreWrite) (image : Bytes) (n : Nat) : Prop where
  opens : (∃ f, ofImage (image.take n) = .ok f) ↔ ∃ kept, kept <+: writes ∧ n = endOf kept
  /-- The file is what it was then, and reading gives what had been written last by then. -/
  earlier : ∀ kept, kept <+: writes → n = endOf kept → ∃ f, create.writeAll kept = .ok f ∧
    ofImage (image.take n) = .ok f ∧
    ∀ offset, f.read offset = .ok ((MemoryStore.after kept).get? offset)
  fails : (∀ kept, kept <+: writes → n ≠ endOf kept) →
    ∃ error, ofImage (image.take n) = .error error

variable {writes kept : List StoreWrite} {f : ChunkFile} {n : Nat}

/-! ### Telling records apart -/

/-- **Records are told apart.** -/
theorem prefix_of_recordsOf {xs ys : List StoreWrite} (hxs : ∀ write ∈ xs, Fits write)
    (hys : ∀ write ∈ ys, Fits write) (h : recordsOf xs <+: recordsOf ys) : xs <+: ys := by
  induction xs generalizing ys with
  | nil => exact List.nil_prefix
  | cons x xs ih =>
    obtain ⟨rest, hrest⟩ := h
    cases ys with
    | nil =>
      -- a record is never empty
      have hlength := congrArg List.length hrest
      rw [List.length_append, length_recordsOf, total_cons, recordSize, recordHeaderSize] at hlength
      simp only [recordsOf, List.flatMap_nil, List.length_nil] at hlength
      omega
    | cons y ys =>
      obtain ⟨hxoffset, hxdata⟩ := hxs x List.mem_cons_self
      obtain ⟨hyoffset, hydata⟩ := hys y List.mem_cons_self
      rw [recordsOf_cons, recordsOf_cons, List.append_assoc, List.append_assoc] at hrest
      -- the heads say the same, so the data and what follows them are as long
      have hhead := congrArg readHead hrest
      rw [readHead_recordHeader hxoffset x.mask hxdata, readHead_recordHeader hyoffset y.mask hydata]
        at hhead
      obtain ⟨hoffset, hmask, hlength, hafter⟩ := RecordHead.mk.inj (Except.ok.inj hhead)
      obtain ⟨hdata, hrecords⟩ := List.append_inj hafter hlength
      obtain ⟨offset, mask, data⟩ := x
      cases hoffset
      cases hmask
      cases hdata
      rw [List.cons_prefix_cons]
      exact ⟨rfl, ih (fun write hwrite => hxs write (List.mem_cons_of_mem _ hwrite))
        (fun write hwrite => hys write (List.mem_cons_of_mem _ hwrite)) ⟨rest, hrecords⟩⟩

/-! ### Writing and cutting -/

/-- What a file accepts has few enough coordinates, and makes it the file of its writes. -/
theorem writeAll_fileOf (before : List StoreWrite) :
    (fileOf before).writeAll writes = .ok f ↔
      (∀ write ∈ writes, write.offset.length ≤ maxDimensions) ∧ f = fileOf (before ++ writes) := by
  induction writes generalizing before with
  | nil => simp [writeAll, eq_comm]
  | cons write writes ih =>
    by_cases ho : write.offset.length ≤ maxDimensions
    · rw [writeAll, write_of_le ho]
      dsimp only
      rw [put_fileOf, ih, List.append_assoc, List.singleton_append]
      simp [ho]
    · rw [writeAll, write_of_lt (Nat.lt_of_not_le ho)]
      simp [ho]

theorem length_fileOf (writes : List StoreWrite) : (fileOf writes).image.length = endOf writes :=
  length_image_fileOf writes

theorem take_image_fileOf (h : kept <+: writes) :
    (fileOf writes).image.take (endOf kept) = (fileOf kept).image := by
  obtain ⟨later, rfl⟩ := h
  have himage : (fileOf (kept ++ later)).image = (fileOf kept).image ++ recordsOf later := by
    simp [image_fileOf, recordsOf]
  rw [himage, ← length_fileOf, List.take_left' rfl]

/-- A part of a file that opens ends where a record ends. -/
theorem exists_kept_of_ofImage (hw : ∀ write ∈ writes, Fits write)
    (hn : n ≤ (fileOf writes).image.length) {g : ChunkFile}
    (h : ofImage ((fileOf writes).image.take n) = .ok g) :
    ∃ kept, kept <+: writes ∧ n = endOf kept := by
  obtain ⟨kept, a, b, body, hbytes, hrecords⟩ := (exists_ofImage_iff _).1 ⟨g, h⟩
  obtain ⟨rfl, hkept⟩ := hrecords.eq_recordsOf
  refine ⟨kept, ?_, ?_⟩
  · -- behind the header there are records on both sides
    have hprefix := List.take_prefix n (fileOf writes).image
    rw [hbytes, image_fileOf] at hprefix
    obtain ⟨rest, hrest⟩ := hprefix
    rw [List.append_assoc] at hrest
    exact prefix_of_recordsOf hkept hw ⟨rest, (List.append_inj hrest rfl).2⟩
  · have hlength := congrArg List.length hbytes
    rw [List.length_take, Nat.min_eq_left hn, List.length_append, length_recordsOf] at hlength
    exact hlength

/-- **A file that was cut off opens exactly if it ends where a record ends**, and then it is what it was
when that record had been written.  Lengths of byte strings have 64 bits. -/
theorem opensWhereCut (hd : ∀ write ∈ writes, write.data.length < UInt64.size)
    (h : create.writeAll writes = .ok f) (hn : n ≤ f.image.length) :
    OpensWhereCut writes f.image n := by
  rw [create_eq] at h
  obtain ⟨hoffsets, rfl⟩ := (writeAll_fileOf []).1 h
  rw [List.nil_append] at hn ⊢
  have hfits : ∀ write ∈ writes, Fits write := fun write hmem => ⟨hoffsets write hmem, hd write hmem⟩
  have hopen {kept : List StoreWrite} (hkept : kept <+: writes) :
      ofImage ((fileOf writes).image.take (endOf kept)) = .ok (fileOf kept) := by
    rw [take_image_fileOf hkept]
    exact ofImage_fileOf fun write hmem => hfits write (hkept.subset hmem)
  refine ⟨⟨fun ⟨_, hg⟩ => exists_kept_of_ofImage hfits hn hg, ?_⟩, ?_, ?_⟩
  · rintro ⟨kept, hkept, rfl⟩
    exact ⟨_, hopen hkept⟩
  · rintro kept hkept rfl
    refine ⟨fileOf kept, ?_, hopen hkept, (mirrors_fileOf kept).read⟩
    exact (writeAll_fileOf []).2 ⟨fun write hmem => hoffsets write (hkept.subset hmem), rfl⟩
  · intro hno
    cases hresult : ofImage ((fileOf writes).image.take n) with
    | error error => exact ⟨error, rfl⟩
    | ok g =>
      obtain ⟨kept, hkept, heq⟩ := exists_kept_of_ofImage hfits hn hresult
      exact absurd heq (hno kept hkept)

/-- Writes of which the second replaces the first, without data, and the third has no coordinates. -/
def shadowingWrites : List StoreWrite := [⟨[0], ⟨1⟩, [1, 2, 3]⟩, ⟨[0], ⟨0⟩, []⟩, ⟨[], ⟨6⟩, [7]⟩]

/-- Where the second record is cut off, the first one is seen again. -/
theorem opensWhereCut_shadowing :
    (∀ write ∈ shadowingWrites, write.data.length < UInt64.size) ∧
    ∃ f, create.writeAll shadowingWrites = .ok f ∧ f.image.length = 76 ∧
      (∀ n ≤ 76, OpensWhereCut shadowingWrites f.image n) ∧
      (∃ g, ofImage (f.image.take 59) = .ok g ∧ g.read [0] = .ok (some ⟨⟨0⟩, []⟩)) ∧
      (∃ g, ofImage (f.image.take 35) = .ok g ∧ g.read [0] = .ok (some ⟨⟨1⟩, [1, 2, 3]⟩)) ∧
      ∃ error, ofImage (f.image.take 58) = .error error := by
  have hd : ∀ write ∈ shadowingWrites, write.data.length < UInt64.size := by
    simp [shadowingWrites, UInt64.size]
  have hwrites : create.writeAll shadowingWrites = .ok (fileOf shadowingWrites) := by rfl
  have hcut {n : Nat} (hn : n ≤ (fileOf shadowingWrites).image.length) :
      OpensWhereCut shadowingWrites (fileOf shadowingWrites).image n := opensWhereCut hd hwrites hn
  refine ⟨hd, fileOf shadowingWrites, hwrites, rfl, fun n hn => hcut hn, ?_, ?_, ?_⟩
  · obtain ⟨g, -, hopen, hread⟩ := (hcut (n := 59) (by decide)).earlier (shadowingWrites.take 2)
      (List.take_prefix ..) rfl
    exact ⟨g, hopen, (hread [0]).trans (by rfl)⟩
  · obtain ⟨g, -, hopen, hread⟩ := (hcut (n := 35) (by decide)).earlier (shadowingWrites.take 1)
      (List.take_prefix ..) rfl
    exact ⟨g, hopen, (hread [0]).trans (by rfl)⟩
  · have hends : ∀ kept ∈ shadowingWrites.inits, 58 ≠ endOf kept := by decide
    exact (hcut (n := 58) (by decide)).fails fun kept hkept =>
      hends kept ((List.mem_inits kept shadowingWrites).2 hkept)

end FilteredChunks.ChunkFile
