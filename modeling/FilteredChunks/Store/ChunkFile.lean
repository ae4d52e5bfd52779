import FilteredChunks.Store.Basic

/-!
# Chunk files

A chunk file is a header and one record per write.  The header is a magic number, a version and two
unused bytes; a record is the number of dimensions, two zero bytes, the mask, the number of data
bytes, the coordinates and the data.  All numbers are little endian.

An open file has an index of the latest record of each offset and the position where the next record
goes.  `ofImage` rebuilds both by scanning the records, which must fill the file.
-/

namespace FilteredChunks

/-- Where the data of a record are, and its mask. -/
structure ChunkRecord where
  position : Nat
  length : Nat
  mask : FilterMask
  deriving DecidableEq

/-- An open chunk file: its bytes, the position after the last record, and the index. -/
structure ChunkFile where
  content : Array UInt8
  fileLength : Nat
  index : Std.ExtTreeMap ChunkOffset ChunkRecord

namespace ChunkFile

/-- The bytes of the file. -/
def image (f : ChunkFile) : Bytes := f.content.toList

def magic : Bytes := "H5FC".toList.map fun c => UInt8.ofNat c.toNat

def version : Nat := 1

/-- The bytes before the first record. -/
def header : Bytes := magic ++ Bytes.littleEndian 2 version ++ [0, 0]

def headerSize : Nat := 8

/-- Bytes of a record before its coordinates. -/
def recordHeaderSize : Nat := 16

/-- Most coordinates of an offset. -/
def maxDimensions : Nat := 65535

/-- A record without its data. -/
def recordHeader (offset : ChunkOffset) (mask : FilterMask) (length : Nat) : Bytes :=
  Bytes.littleEndian 2 offset.length ++ [0, 0] ++ Bytes.littleEndian 4 mask.bits.toNat ++
    Bytes.littleEndian 8 length ++ offset.flatMap fun c => Bytes.littleEndian 8 c.toNat

/-- A record. -/
def record (offset : ChunkOffset) (mask : FilterMask) (data : Bytes) : Bytes :=
  recordHeader offset mask data.length ++ data

/-- A new file without chunks. -/
def create : ChunkFile := ⟨header.toArray, header.length, ∅⟩

/-- The first `n` bytes and the rest; it is a failure if the file ends before. -/
def take (n : Nat) (bytes : Bytes) : Except FilterError (Bytes × Bytes) :=
  match Bytes.splitAt? n bytes with
  | some parts => .ok parts
  | none => .error (.file .endOfFile)

theorem eq_append_of_take {n : Nat} {bytes front rest : Bytes}
    (h : take n bytes = .ok (front, rest)) : bytes = front ++ rest ∧ front.length = n := by
  simp only [take, Bytes.splitAt?] at h
  split at h
  · next hsplit =>
    split at hsplit
    · next hlen =>
      cases hsplit
      cases h
      exact ⟨(List.take_append_drop n bytes).symm, hlen⟩
    · contradiction
  · contradiction

theorem length_of_take {n : Nat} {bytes front rest : Bytes} (h : take n bytes = .ok (front, rest)) :
    rest.length + n = bytes.length := by
  obtain ⟨rfl, hfront⟩ := eq_append_of_take h
  simp only [List.length_append, hfront]
  omega

/-- The coordinates in some bytes. -/
def coordinates : (count : Nat) → Bytes → ChunkOffset
  | 0, _ => []
  | count + 1, bytes =>
    UInt64.ofNat (Bytes.fromLittleEndian (bytes.take 8)) :: coordinates count (bytes.drop 8)

/-- What a record says about its data, and the bytes from the data on. -/
structure RecordHead where
  offset : ChunkOffset
  mask : FilterMask
  length : Nat
  rest : Bytes

/-- Reads a record up to its data. -/
def readHead (bytes : Bytes) : Except FilterError RecordHead :=
  match take recordHeaderSize bytes with
  | .error error => .error error
  | .ok (fixed, rest) =>
    if (fixed.drop 2).take 2 ≠ [0, 0] then .error (.storage .reservedBits)
    else
      let dims := Bytes.fromLittleEndian (fixed.take 2)
      match take (8 * dims) rest with
      | .error error => .error error
      | .ok (coords, rest) =>
        .ok {
          offset := coordinates dims coords
          mask := ⟨BitVec.ofNat 32 (Bytes.fromLittleEndian ((fixed.drop 4).take 4))⟩
          length := Bytes.fromLittleEndian (fixed.drop 8)
          rest := rest }

theorem length_rest_of_readHead {bytes : Bytes} {head : RecordHead}
    (h : readHead bytes = .ok head) : head.rest.length < bytes.length := by
  simp only [readHead] at h
  split at h
  · contradiction
  next fixed rest h1 =>
  split at h
  · contradiction
  split at h
  · contradiction
  next coords rest' h2 =>
  cases h
  obtain ⟨rfl, hfixed⟩ := eq_append_of_take h1
  obtain ⟨rfl, -⟩ := eq_append_of_take h2
  simp only [List.length_append, hfixed, recordHeaderSize]
  omega

/-- Reads the records from `position` on, where the file has the given bytes left; `index` is that of
the records before. -/
def scan (position : Nat) (bytes : Bytes) (index : Std.ExtTreeMap ChunkOffset ChunkRecord) :
    Except FilterError (Std.ExtTreeMap ChunkOffset ChunkRecord) :=
  if bytes = [] then .ok index
  else
    match h : readHead bytes with
    | .error error => .error error
    | .ok head =>
      match h' : take head.length head.rest with
      | .error _ => .error (.storage (.truncatedRecord position))
      | .ok (_, rest) =>
        have := length_rest_of_readHead h
        have := length_of_take h'
        let dataPosition := position + (recordHeaderSize + 8 * head.offset.length)
        scan (dataPosition + head.length) rest
          (index.insert head.offset ⟨dataPosition, head.length, head.mask⟩)
termination_by bytes.length

/-- Opens a file with the given bytes. -/
def ofImage (image : Bytes) : Except FilterError ChunkFile :=
  match take headerSize image with
  | .error error => .error error
  | .ok (head, rest) =>
    if head.take 4 ≠ magic then .error (.storage .badMagic)
    else if Bytes.fromLittleEndian ((head.drop 4).take 2) ≠ version then
      .error (.storage .unsupportedVersion)
    else (scan headerSize rest ∅).map fun index => ⟨image.toArray, image.length, index⟩

/-- Bytes with others put over them from position `at_` on, which is mostly their end. -/
def overwrite (content : Array UInt8) (at_ : Nat) (bytes : Bytes) : Array UInt8 :=
  if content.size = at_ then content ++ bytes else (Bytes.overwrite content.toList at_ bytes).toArray

theorem toList_overwrite (content : Array UInt8) (at_ : Nat) (bytes : Bytes) :
    (overwrite content at_ bytes).toList = Bytes.overwrite content.toList at_ bytes := by
  unfold overwrite
  split
  · next h =>
    have hdrop : content.toList.drop content.size = [] := by simp
    simp [Bytes.overwrite, ← h, hdrop]
  · rfl

/-- Appends a record, which from now on is the latest of its offset.  If the file has become shorter
in the meantime, zeros fill the gap. -/
def put (f : ChunkFile) (offset : ChunkOffset) (mask : FilterMask) (data : Bytes) : ChunkFile :=
  let ⟨content, fileLength, index⟩ := f
  let head := recordHeader offset mask data.length
  { content := overwrite content fileLength (head ++ data)
    fileLength := fileLength + (head.length + data.length)
    index := index.insert offset ⟨fileLength + head.length, data.length, mask⟩ }

/-- A record has no room for more than 65535 coordinates. -/
def refusal? (offset : ChunkOffset) : Option FilterError :=
  if maxDimensions < offset.length then some (.storage .tooManyDimensions) else none

/-- Appends a record unless it is refused. -/
def write (f : ChunkFile) (offset : ChunkOffset) (mask : FilterMask) (data : Bytes) :
    Except FilterError ChunkFile :=
  match refusal? offset with
  | some error => .error error
  | none => .ok (f.put offset mask data)

/-- The data of a record. -/
def dataOf (f : ChunkFile) (r : ChunkRecord) : Bytes :=
  (f.content.extract r.position (r.position + r.length)).toList

theorem dataOf_eq (f : ChunkFile) (r : ChunkRecord) :
    f.dataOf r = (f.image.drop r.position).take r.length := by
  simp [dataOf, image, List.extract_eq_take_drop]

/-- Reads the latest chunk of an offset, if there is one.  The file may have become too short for
it. -/
def read (f : ChunkFile) (offset : ChunkOffset) : Except FilterError (Option StoredChunk) :=
  match f.index[offset]? with
  | none => .ok none
  | some r =>
    (take r.length (f.dataOf r)).map fun (data, _) => some ⟨r.mask, data⟩

/-- Number of offsets. -/
def size (f : ChunkFile) : Nat := f.index.size

/-- The latest record of each offset, in the order of the offsets. -/
def records (f : ChunkFile) : List (ChunkOffset × ChunkRecord) := f.index.toList

/-- The same open file after its bytes were changed by someone else. -/
def withImage (f : ChunkFile) (image : Bytes) : ChunkFile := { f with content := image.toArray }

instance : ChunkStore ChunkFile where
  refusal? _ offset _ _ := refusal? offset
  put := put

end ChunkFile

end FilteredChunks
