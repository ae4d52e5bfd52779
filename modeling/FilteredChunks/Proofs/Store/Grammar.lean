import FilteredChunks.Proofs.Store.Reopening
import Mathlib.Data.List.Basic

/-!
# The grammar of chunk files

`Records` says which bytes are complete records, one after the other, and which writes they are records
of; `IsChunkFile` puts a header before them.  Both are about the bytes alone, whoever wrote them.

Records are the bytes that `recordsOf` writes (`Records.eq_recordsOf`), and scanning accepts nothing else
(`exists_records_of_scan`), so a file opens exactly if it is a chunk file (`exists_ofImage_iff`).  Then it
`Lists` the last write at each offset and where in the file the data of that write are.
-/

namespace FilteredChunks.ChunkFile

/-- Complete records, one after the other, and their writes.  A record has fields of a fixed width for the
number of its coordinates, two zeros, its mask and the number of its data bytes, and then that many
coordinates and that many data bytes. -/
inductive Records : Bytes → List StoreWrite → Prop
  | nil : Records [] []
  | cons (dims mask size : Bytes) (coords : List Bytes) (data rest : Bytes) (writes : List StoreWrite)
      (hdims : dims.length = 2) (hmask : mask.length = 4) (hsize : size.length = 8)
      (hcount : coords.length = Bytes.fromLittleEndian dims)
      (hcoords : ∀ coord ∈ coords, coord.length = 8)
      (hdata : data.length = Bytes.fromLittleEndian size) (hrest : Records rest writes) :
      Records (dims ++ [0, 0] ++ mask ++ size ++ coords.flatten ++ data ++ rest)
        (⟨coords.map fun coord => UInt64.ofNat (Bytes.fromLittleEndian coord),
          ⟨BitVec.ofNat 32 (Bytes.fromLittleEndian mask)⟩, data⟩ :: writes)

/-- A file of the records of some writes: the characters H5FC, version 1, two bytes of any value, and
complete records up to the end. -/
def IsChunkFile (image : Bytes) (writes : List StoreWrite) : Prop :=
  ∃ a b body, image = [72, 53, 70, 67] ++ [1, 0] ++ [a, b] ++ body ∧ Records body writes

variable {bytes body : Bytes} {writes : List StoreWrite} {offset : ChunkOffset}

/-- The last of some writes at an offset, and the writes before it. -/
def LastAt (writes : List StoreWrite) (offset : ChunkOffset) (before : List StoreWrite)
    (write : StoreWrite) : Prop :=
  write.offset = offset ∧
    ∃ after, writes = before ++ write :: after ∧ ∀ other ∈ after, other.offset ≠ offset

/-- An entry of an index is that of a write after others: its mask is the write's, and it says where in
the file the write's data are. -/
structure Delimits (image : Bytes) (before : List StoreWrite) (write : StoreWrite) (r : ChunkRecord) :
    Prop where
  mask : r.mask = write.mask
  length : r.length = write.data.length
  position : r.position = 8 + total recordSize before + (16 + 8 * write.offset.length)
  inside : r.position + r.length ≤ image.length
  data : (image.drop r.position).take r.length = write.data

/-- What a file of the records of some writes must be opened as. -/
structure Lists (image : Bytes) (writes : List StoreWrite) (f : ChunkFile) : Prop where
  image_eq : f.image = image
  fileLength : f.fileLength = image.length
  /-- The offsets are in the order of words in a dictionary, and each is there once. -/
  ordered : f.records.Pairwise fun x y => x.1 < y.1
  records : ∀ offset r, (offset, r) ∈ f.records ↔
    ∃ before write, LastAt writes offset before write ∧ Delimits image before write r

/-! ### Numbers -/

theorem exists_words {count : Nat} (h : bytes.length = 8 * count) :
    ∃ coords : List Bytes, coords.length = count ∧ (∀ coord ∈ coords, coord.length = 8) ∧
      bytes = coords.flatten ∧
      coordinates count bytes =
        coords.map fun coord => UInt64.ofNat (Bytes.fromLittleEndian coord) := by
  induction count generalizing bytes with
  | zero => exact ⟨[], rfl, nofun, List.length_eq_zero_iff.1 h, rfl⟩
  | succ count ih =>
    have htake : (bytes.take 8).length = 8 := by
      rw [List.length_take]
      omega
    have hdrop : (bytes.drop 8).length = 8 * count := by
      rw [List.length_drop]
      omega
    obtain ⟨coords, hcount, hcoords, hbytes, heq⟩ := ih hdrop
    refine ⟨bytes.take 8 :: coords, by simp [hcount], ?_, ?_, ?_⟩
    · intro coord hcoord
      rcases List.mem_cons.1 hcoord with rfl | hcoord
      · exact htake
      · exact hcoords coord hcoord
    · rw [List.flatten_cons, ← hbytes, List.take_append_drop]
    · rw [coordinates, heq, List.map_cons]

theorem length_flatten_words {coords : List Bytes} (h : ∀ coord ∈ coords, coord.length = 8) :
    coords.flatten.length = 8 * coords.length := by
  rw [List.length_flatten, List.map_eq_replicate_iff.2 h, List.sum_replicate_nat, Nat.mul_comm]

theorem littleEndian_of_length {width : Nat} (h : bytes.length = width) :
    Bytes.littleEndian width (Bytes.fromLittleEndian bytes) = bytes := by
  rw [← h, Bytes.littleEndian_fromLittleEndian]

theorem fromLittleEndian_lt_of_length {width : Nat} (h : bytes.length = width) :
    Bytes.fromLittleEndian bytes < Bytes.span width := by
  rw [← h]
  exact Bytes.fromLittleEndian_lt bytes

theorem littleEndian_coordinate (h : bytes.length = 8) :
    Bytes.littleEndian 8 (UInt64.ofNat (Bytes.fromLittleEndian bytes)).toNat = bytes := by
  have hlt : Bytes.fromLittleEndian bytes < UInt64.size := fromLittleEndian_lt_of_length h
  rw [UInt64.toNat_ofNat_of_lt' hlt, littleEndian_of_length h]

theorem flatMap_words {coords : List Bytes} (h : ∀ coord ∈ coords, coord.length = 8) :
    ((coords.map fun coord => UInt64.ofNat (Bytes.fromLittleEndian coord)).flatMap fun c =>
      Bytes.littleEndian 8 c.toNat) = coords.flatten := by
  induction coords with
  | nil => rfl
  | cons coord coords ih =>
    rw [List.map_cons, List.flatMap_cons, List.flatten_cons,
      littleEndian_coordinate (h coord List.mem_cons_self),
      ih fun other hother => h other (List.mem_cons_of_mem _ hother)]

theorem littleEndian_mask (h : bytes.length = 4) :
    Bytes.littleEndian 4 (BitVec.ofNat 32 (Bytes.fromLittleEndian bytes)).toNat = bytes := by
  have hlt : Bytes.fromLittleEndian bytes < 2 ^ 32 := fromLittleEndian_lt_of_length h
  rw [BitVec.toNat_ofNat, Nat.mod_eq_of_lt hlt, littleEndian_of_length h]

/-! ### Records and their writes -/

theorem Records.eq_recordsOf (h : Records bytes writes) :
    bytes = recordsOf writes ∧ ∀ write ∈ writes, Fits write := by
  induction h with
  | nil => exact ⟨rfl, nofun⟩
  | cons dims mask size coords data rest writes hdims hmask hsize hcount hcoords hdata hrest ih =>
    obtain ⟨heq, hfits⟩ := ih
    constructor
    · rw [recordsOf, List.flatMap_cons, record, recordHeader, List.length_map, hcount,
        littleEndian_of_length hdims, hdata, littleEndian_of_length hsize, littleEndian_mask hmask,
        flatMap_words hcoords, heq]
      rfl
    · intro write hwrite
      rcases List.mem_cons.1 hwrite with rfl | hwrite
      · refine ⟨?_, ?_⟩
        · rw [List.length_map, hcount]
          exact Nat.le_of_lt_succ (fromLittleEndian_lt_of_length hdims)
        · rw [hdata]
          exact fromLittleEndian_lt_of_length hsize
      · exact hfits write hwrite

theorem eq_fields (fixed : Bytes) : fixed =
    fixed.take 2 ++ (fixed.drop 2).take 2 ++ (fixed.drop 4).take 4 ++ fixed.drop 8 := by
  have h4 : (fixed.drop 4).take 4 ++ fixed.drop 8 = fixed.drop 4 := by
    simpa using List.take_append_drop 4 (fixed.drop 4)
  have h2 : (fixed.drop 2).take 2 ++ fixed.drop 4 = fixed.drop 2 := by
    simpa using List.take_append_drop 2 (fixed.drop 2)
  rw [List.append_assoc, h4, List.append_assoc, h2, List.take_append_drop]

theorem exists_of_readHead {head : RecordHead} (h : readHead bytes = .ok head) :
    ∃ (dims mask size : Bytes) (coords : List Bytes), dims.length = 2 ∧ mask.length = 4 ∧
      size.length = 8 ∧ coords.length = Bytes.fromLittleEndian dims ∧
      (∀ coord ∈ coords, coord.length = 8) ∧
      bytes = dims ++ [0, 0] ++ mask ++ size ++ coords.flatten ++ head.rest ∧
      head.offset = (coords.map fun coord => UInt64.ofNat (Bytes.fromLittleEndian coord)) ∧
      head.length = Bytes.fromLittleEndian size := by
  rw [readHead] at h
  split at h
  · cases h
  next fixed rest hfixed =>
  split at h
  · cases h
  next hzeros =>
  dsimp only at h
  split at h
  · cases h
  next coords rest' hcoords =>
  cases h
  obtain ⟨rfl, hlength⟩ := eq_append_of_take hfixed
  obtain ⟨rfl, hcount⟩ := eq_append_of_take hcoords
  obtain ⟨words, hwords, hwidth, rfl, heq⟩ := exists_words hcount
  rw [not_not] at hzeros
  rw [recordHeaderSize] at hlength
  refine ⟨fixed.take 2, (fixed.drop 4).take 4, fixed.drop 8, words, ?_, ?_, ?_, hwords, hwidth, ?_,
    heq, rfl⟩
  · simp [hlength]
  · simp [hlength]
  · simp [hlength]
  · have hfields := eq_fields fixed
    rw [hzeros] at hfields
    rw [← hfields, List.append_assoc]

theorem eq_append_of_readHead {head : RecordHead} (h : readHead bytes = .ok head) :
    ∃ front, bytes = front ++ head.rest ∧
      front.length = recordHeaderSize + 8 * head.offset.length := by
  obtain ⟨dims, mask, size, coords, hdims, hmask, hsize, -, hcoords, hbytes, hoffset, -⟩ :=
    exists_of_readHead h
  refine ⟨_, hbytes, ?_⟩
  simp only [List.length_append, hdims, hmask, hsize, length_flatten_words hcoords, hoffset,
    List.length_map, List.length_cons, List.length_nil, recordHeaderSize]

/-- What scanning accepts are records. -/
theorem exists_records_of_scan {position : Nat} {index index' : Std.ExtTreeMap ChunkOffset ChunkRecord}
    (h : scan position bytes index = .ok index') : ∃ writes, Records bytes writes := by
  fun_induction scan position bytes index with
  | case1 => exact ⟨[], .nil⟩
  | case2 => cases h
  | case3 => cases h
  | case4 position bytes index hne head hhead data rest htake hlt hlen dataPosition ih =>
    obtain ⟨writes, hwrites⟩ := ih h
    obtain ⟨dims, mask, size, coords, hdims, hmask, hsize, hcount, hcoords, rfl, -, hlength⟩ :=
      exists_of_readHead hhead
    obtain ⟨hrest, hdata⟩ := eq_append_of_take htake
    rw [hrest, ← List.append_assoc]
    exact ⟨_, .cons dims mask size coords data rest writes hdims hmask hsize hcount hcoords
      (hdata.trans hlength) hwrites⟩

/-! ### Headers -/

theorem ofImage_header (a b : UInt8) (body : Bytes) :
    ofImage ([72, 53, 70, 67] ++ [1, 0] ++ [a, b] ++ body) =
      (scan headerSize body ∅).map fun index =>
        ⟨([72, 53, 70, 67] ++ [1, 0] ++ [a, b] ++ body).toArray,
          ([72, 53, 70, 67] ++ [1, 0] ++ [a, b] ++ body).length, index⟩ := by
  have hlength : ([72, 53, 70, 67] ++ [1, 0] ++ [a, b] : Bytes).length = headerSize := rfl
  have hmagic : ([72, 53, 70, 67] ++ [1, 0] ++ [a, b] : Bytes).take 4 = magic := rfl
  have hversion : Bytes.fromLittleEndian
      ((([72, 53, 70, 67] ++ [1, 0] ++ [a, b] : Bytes).drop 4).take 2) = version := rfl
  rw [ofImage, take_append_of_length hlength]
  dsimp only
  rw [if_neg (not_not.2 hmagic), if_neg (not_not.2 hversion)]

theorem exists_header_of_ofImage {image : Bytes} {f : ChunkFile} (h : ofImage image = .ok f) :
    ∃ a b body, image = [72, 53, 70, 67] ++ [1, 0] ++ [a, b] ++ body := by
  rw [ofImage] at h
  split at h
  · cases h
  next head rest hhead =>
  split at h
  · cases h
  next hmagic =>
  split at h
  · cases h
  next hversion =>
  obtain ⟨rfl, hlength⟩ := eq_append_of_take hhead
  rw [not_not] at hmagic hversion
  have hbytes : (head.drop 4).take 2 = [1, 0] := by
    have hwidth : ((head.drop 4).take 2).length = 2 := by
      rw [List.length_take, List.length_drop, hlength]
      rfl
    rw [← littleEndian_of_length hwidth, hversion]
    rfl
  have hunused : (head.drop 6).length = 2 := by rw [List.length_drop, hlength, headerSize]
  obtain ⟨a, b, hab⟩ := List.length_eq_two.1 hunused
  refine ⟨a, b, rest, ?_⟩
  have h4 : (head.drop 4).take 2 ++ head.drop 6 = head.drop 4 := by
    simpa using List.take_append_drop 2 (head.drop 4)
  have hfields : head = head.take 4 ++ ((head.drop 4).take 2 ++ head.drop 6) := by
    rw [h4, List.take_append_drop]
  rw [hfields, hmagic, hbytes, hab]
  rfl

/-! ### The records of a file -/

variable {before : List StoreWrite} {write last : StoreWrite}

theorem lastAt_concat : LastAt (writes ++ [last]) offset before write ↔
    last.offset = offset ∧ before = writes ∧ write = last ∨
      last.offset ≠ offset ∧ LastAt writes offset before write := by
  constructor
  · rintro ⟨hoffset, after, heq, hafter⟩
    rcases List.eq_nil_or_concat after with rfl | ⟨after, final, rfl⟩
    · obtain ⟨rfl, hlast⟩ := List.append_inj' heq rfl
      cases hlast
      exact .inl ⟨hoffset, rfl, rfl⟩
    · rw [List.concat_eq_append, ← List.cons_append, ← List.append_assoc] at heq
      obtain ⟨hwrites, hlast⟩ := List.append_inj' heq rfl
      cases hlast
      exact .inr ⟨hafter last (by simp), hoffset, after, hwrites,
        fun other hother => hafter other (by simp [hother])⟩
  · rintro (⟨hoffset, rfl, rfl⟩ | ⟨hne, hoffset, after, rfl, hafter⟩)
    · exact ⟨hoffset, [], rfl, nofun⟩
    · refine ⟨hoffset, after ++ [last], by simp, fun other hother => ?_⟩
      rcases List.mem_append.1 hother with hother | hother
      · exact hafter other hother
      · rw [List.mem_singleton.1 hother]
        exact hne

theorem getElem?_indexFrom {position : Nat} {r : ChunkRecord} :
    (indexFrom position writes ∅)[offset]? = some r ↔
      ∃ before write, LastAt writes offset before write ∧
        r = entryAt (position + total recordSize before) write := by
  induction writes using List.reverseRec with
  | nil => simp [indexFrom, LastAt]
  | append_singleton writes last ih =>
    rw [indexFrom_append, indexFrom, indexFrom, Std.ExtTreeMap.getElem?_insert]
    simp only [Std.LawfulEqCmp.compare_eq_iff_eq]
    split
    · next hoffset =>
      simp only [lastAt_concat, hoffset, true_and, ne_eq, not_true_eq_false, false_and, or_false]
      constructor
      · intro h
        cases h
        exact ⟨writes, last, ⟨rfl, rfl⟩, rfl⟩
      · rintro ⟨_, _, ⟨rfl, rfl⟩, rfl⟩
        rfl
    · next hoffset =>
      simp only [lastAt_concat, hoffset, false_and, ne_eq, not_false_eq_true, true_and, false_or]
      exact ih

theorem lt_of_compare {x y : ChunkOffset} (h : compare x y = .lt) : x < y := by
  induction x generalizing y with
  | nil =>
    cases y with
    | nil => cases h
    | cons d y => exact .nil
  | cons c x ih =>
    cases y with
    | nil => cases h
    | cons d y =>
      rw [List.compare_eq_compareLex, List.compareLex_cons_cons, Ordering.then_eq_lt] at h
      rcases h with h | ⟨heq, h⟩
      · exact .rel (Std.compare_eq_lt.1 h)
      · rw [Std.LawfulEqCmp.compare_eq_iff_eq] at heq
        subst heq
        exact .cons (ih h)

/-- In a file of records there is one entry of a write, that of the index. -/
theorem delimits_iff {head : Bytes} (hhead : head.length = 8) {after : List StoreWrite}
    {r : ChunkRecord} :
    Delimits (head ++ recordsOf (before ++ write :: after)) before write r ↔
      r = entryAt (8 + total recordSize before) write := by
  constructor
  · rintro ⟨hmask, hlength, hposition, -, -⟩
    obtain ⟨position, length, mask⟩ := r
    cases hmask
    cases hlength
    cases hposition
    rfl
  · rintro rfl
    -- the data have the header, the records before and the write's record header in front of them
    have himage : head ++ recordsOf (before ++ write :: after) =
        (head ++ recordsOf before ++ recordHeader write.offset write.mask write.data.length) ++
          (write.data ++ recordsOf after) := by
      simp [recordsOf, record]
    have hfront : (head ++ recordsOf before ++
        recordHeader write.offset write.mask write.data.length).length =
          (entryAt (8 + total recordSize before) write).position := by
      rw [List.length_append, List.length_append, hhead, length_recordsOf, length_recordHeader,
        entryAt]
    refine ⟨rfl, rfl, rfl, ?_, ?_⟩
    · rw [himage, List.length_append, hfront, List.length_append]
      exact Nat.add_le_add_left (Nat.le_add_right _ _) _
    · rw [himage, List.drop_left' hfront]
      exact List.take_left' rfl

theorem ofImage_of_records (a b : UInt8) (h : Records body writes) :
    ∃ f, ofImage ([72, 53, 70, 67] ++ [1, 0] ++ [a, b] ++ body) = .ok f ∧
      Lists ([72, 53, 70, 67] ++ [1, 0] ++ [a, b] ++ body) writes f := by
  obtain ⟨rfl, hfits⟩ := h.eq_recordsOf
  refine ⟨_, by rw [ofImage_header, scan_recordsOf hfits]; rfl, rfl, rfl,
    Std.ExtTreeMap.ordered_keys_toList.imp lt_of_compare, fun offset r => ?_⟩
  rw [records, Std.ExtTreeMap.mem_toList_iff_getElem?_eq_some, getElem?_indexFrom]
  refine exists_congr fun before => exists_congr fun write => and_congr_right fun hlast => ?_
  obtain ⟨-, after, rfl, -⟩ := hlast
  exact (delimits_iff rfl).symm

/-- **A file opens exactly if it is a chunk file.** -/
theorem exists_ofImage_iff (image : Bytes) :
    (∃ f, ofImage image = .ok f) ↔ ∃ writes, IsChunkFile image writes := by
  constructor
  · rintro ⟨f, h⟩
    obtain ⟨a, b, body, rfl⟩ := exists_header_of_ofImage h
    rw [ofImage_header] at h
    cases hscan : scan headerSize body ∅ with
    | error error => rw [hscan] at h; cases h
    | ok index =>
      obtain ⟨writes, hwrites⟩ := exists_records_of_scan hscan
      exact ⟨writes, a, b, body, rfl, hwrites⟩
  · rintro ⟨writes, a, b, body, rfl, hrecords⟩
    obtain ⟨f, hf, -⟩ := ofImage_of_records a b hrecords
    exact ⟨f, hf⟩

end FilteredChunks.ChunkFile
