import FilteredChunks.Store.ChunkFile
import Mathlib.Tactic.Common

/-!
# Records of a chunk file

A record is read back as what was written (`readHead_recordHeader`), whatever comes after it.  So
scanning the records of some writes, one after the other, builds the index that `indexFrom` reads off
the writes (`scan_recordsOf`).
-/

namespace FilteredChunks

/-- A write to a store. -/
structure StoreWrite where
  offset : ChunkOffset
  mask : FilterMask
  data : Bytes

namespace ChunkFile

/-! ### One record -/

theorem take_append_of_length {n : Nat} {front : Bytes} (h : front.length = n) (rest : Bytes) :
    take n (front ++ rest) = .ok (front, rest) := by
  subst h
  simp [take, Bytes.splitAt?]

theorem length_flatMap_coordinates (offset : ChunkOffset) :
    (offset.flatMap fun c => Bytes.littleEndian 8 c.toNat).length = 8 * offset.length := by
  induction offset with
  | nil => rfl
  | cons c offset ih =>
    rw [List.flatMap_cons, List.length_append, ih, Bytes.length_littleEndian, List.length_cons]
    omega

theorem length_recordHeader (offset : ChunkOffset) (mask : FilterMask) (length : Nat) :
    (recordHeader offset mask length).length = recordHeaderSize + 8 * offset.length := by
  simp only [recordHeader, List.length_append, Bytes.length_littleEndian,
    length_flatMap_coordinates, List.length_cons, List.length_nil, recordHeaderSize]

theorem coordinates_flatMap (offset : ChunkOffset) :
    coordinates offset.length (offset.flatMap fun c => Bytes.littleEndian 8 c.toNat) = offset := by
  induction offset with
  | nil => rfl
  | cons c offset ih =>
    have hlen : (Bytes.littleEndian 8 c.toNat).length = 8 := Bytes.length_littleEndian 8 _
    have hc : UInt64.ofNat (Bytes.fromLittleEndian (Bytes.littleEndian 8 c.toNat)) = c := by
      rw [Bytes.fromLittleEndian_littleEndian]
      exact (congrArg UInt64.ofNat (Nat.mod_eq_of_lt c.toNat_lt)).trans UInt64.ofNat_toNat
    rw [List.length_cons, List.flatMap_cons, coordinates, List.take_left' hlen,
      List.drop_left' hlen, hc, ih]

/-- A record up to its coordinates. -/
def fixedHeader (dims : Nat) (mask : FilterMask) (length : Nat) : Bytes :=
  Bytes.littleEndian 2 dims ++ [0, 0] ++ Bytes.littleEndian 4 mask.bits.toNat ++
    Bytes.littleEndian 8 length

theorem length_fixedHeader (dims : Nat) (mask : FilterMask) (length : Nat) :
    (fixedHeader dims mask length).length = recordHeaderSize := by
  simp only [fixedHeader, List.length_append, Bytes.length_littleEndian, List.length_cons,
    List.length_nil, recordHeaderSize]

/-- **A record is read back**, if its numbers fit into their places. -/
theorem readHead_recordHeader {offset : ChunkOffset} (ho : offset.length ≤ maxDimensions)
    (mask : FilterMask) {length : Nat} (hl : length < UInt64.size) (rest : Bytes) :
    readHead (recordHeader offset mask length ++ rest) = .ok ⟨offset, mask, length, rest⟩ := by
  -- the parts of the fixed header lie where `readHead` looks for them
  have hdims : Bytes.fromLittleEndian ((fixedHeader offset.length mask length).take 2) =
      offset.length := by
    refine (Bytes.fromLittleEndian_littleEndian 2 offset.length).trans ?_
    exact Nat.mod_eq_of_lt (Nat.lt_succ_of_le ho)
  have hzeros : ((fixedHeader offset.length mask length).drop 2).take 2 = [0, 0] := rfl
  have hmask : Bytes.fromLittleEndian (((fixedHeader offset.length mask length).drop 4).take 4) =
      mask.bits.toNat := by
    refine (Bytes.fromLittleEndian_littleEndian 4 mask.bits.toNat).trans ?_
    exact Nat.mod_eq_of_lt mask.bits.isLt
  have hlength : Bytes.fromLittleEndian ((fixedHeader offset.length mask length).drop 8) = length := by
    refine (Bytes.fromLittleEndian_littleEndian 8 length).trans ?_
    exact Nat.mod_eq_of_lt hl
  have hfixed := take_append_of_length (length_fixedHeader offset.length mask length)
    ((offset.flatMap fun c => Bytes.littleEndian 8 c.toNat) ++ rest)
  have hcoordinates := take_append_of_length (length_flatMap_coordinates offset) rest
  have hheader : recordHeader offset mask length ++ rest =
      fixedHeader offset.length mask length ++
        ((offset.flatMap fun c => Bytes.littleEndian 8 c.toNat) ++ rest) := List.append_assoc ..
  rw [hheader, readHead, hfixed]
  dsimp only
  rw [if_neg (not_not.2 hzeros), hdims, hcoordinates]
  dsimp only
  rw [coordinates_flatMap, hmask, hlength, BitVec.ofNat_toNat]
  rfl

/-! ### The records of some writes -/

/-- Bytes of a write's record. -/
def recordSize (write : StoreWrite) : Nat :=
  recordHeaderSize + 8 * write.offset.length + write.data.length

/-- The records of some writes, in order. -/
def recordsOf (writes : List StoreWrite) : Bytes :=
  writes.flatMap fun write => record write.offset write.mask write.data

/-- Where a write's record, if it starts at `position`, has its data. -/
def entryAt (position : Nat) (write : StoreWrite) : ChunkRecord :=
  ⟨position + (recordHeaderSize + 8 * write.offset.length), write.data.length, write.mask⟩

/-- The index after some writes whose records start at `position`, `index` being the one before. -/
def indexFrom : (position : Nat) → List StoreWrite → Std.ExtTreeMap ChunkOffset ChunkRecord →
    Std.ExtTreeMap ChunkOffset ChunkRecord
  | _, [], index => index
  | position, write :: writes, index =>
    indexFrom (position + recordSize write) writes
      (index.insert write.offset (entryAt position write))

/-- The numbers of a write fit into their places in a record. -/
def Fits (write : StoreWrite) : Prop :=
  write.offset.length ≤ maxDimensions ∧ write.data.length < UInt64.size

theorem length_record (write : StoreWrite) :
    (record write.offset write.mask write.data).length = recordSize write := by
  rw [record, List.length_append, length_recordHeader, recordSize]

theorem length_recordsOf (writes : List StoreWrite) :
    (recordsOf writes).length = total recordSize writes := by
  induction writes with
  | nil => rfl
  | cons write writes ih =>
    rw [recordsOf, List.flatMap_cons, List.length_append, length_record, total_cons, ← ih]
    rfl

theorem recordsOf_cons (write : StoreWrite) (writes : List StoreWrite) :
    recordsOf (write :: writes) =
      recordHeader write.offset write.mask write.data.length ++ (write.data ++ recordsOf writes) := by
  rw [recordsOf, List.flatMap_cons, record, List.append_assoc]
  rfl

theorem indexFrom_append (position : Nat) (xs ys : List StoreWrite)
    (index : Std.ExtTreeMap ChunkOffset ChunkRecord) :
    indexFrom position (xs ++ ys) index =
      indexFrom (position + total recordSize xs) ys (indexFrom position xs index) := by
  induction xs generalizing position index with
  | nil => rfl
  | cons write xs ih =>
    rw [List.cons_append, indexFrom, ih, total_cons, indexFrom, Nat.add_assoc]

/-- **Scanning the records of some writes builds their index**, whatever index it starts from. -/
theorem scan_recordsOf {writes : List StoreWrite} (hw : ∀ write ∈ writes, Fits write)
    (position : Nat) (index : Std.ExtTreeMap ChunkOffset ChunkRecord) :
    scan position (recordsOf writes) index = .ok (indexFrom position writes index) := by
  induction writes generalizing position index with
  | nil => rw [recordsOf, List.flatMap_nil, scan, if_pos rfl, indexFrom]
  | cons write writes ih =>
    obtain ⟨hoffset, hdata⟩ := hw write List.mem_cons_self
    have hne : recordHeader write.offset write.mask write.data.length ++
        (write.data ++ recordsOf writes) ≠ [] := by
      intro hnil
      have := congrArg List.length hnil
      rw [List.length_append, length_recordHeader, recordHeaderSize, List.length_nil] at this
      omega
    have hhead := readHead_recordHeader hoffset write.mask hdata (write.data ++ recordsOf writes)
    have htake : take write.data.length (write.data ++ recordsOf writes) =
        .ok (write.data, recordsOf writes) := take_append_of_length rfl _
    rw [recordsOf_cons, scan, if_neg hne]
    split
    · next herror => rw [hhead] at herror; cases herror
    · next head hhead' =>
      rw [hhead] at hhead'
      cases hhead'
      split
      · next herror => rw [htake] at herror; cases herror
      · next rest htake' =>
        rw [htake] at htake'
        cases htake'
        have hnext : position + (recordHeaderSize + 8 * write.offset.length) + write.data.length =
            position + recordSize write := by
          rw [recordSize]
          omega
        dsimp only
        rw [hnext]
        exact ih (fun other hmem => hw other (List.mem_cons_of_mem _ hmem)) _ _

end ChunkFile

end FilteredChunks
