import FilteredChunks.Proofs.Store.Grammar

/-!
# Opening a chunk file with a cursor

Scanning works on what is left of a file and has positions of any size.  A `Scanner` has the file itself,
with a cursor that is moved by reading and by seeking, and keeps the position of the next record apart
from it, as a number of 64 bits.  The cursor is always at that position and never behind the end of the
file (`InStep`).  So one turn does what scanning does (`turn_eq`), no sum is too large for 64 bits, and
since each record has sixteen bytes or more the turns come to an end (`exists_run_eq`).
-/

namespace FilteredChunks.ChunkFile

/-- What is kept between two turns of the loop that opens a file. -/
structure Scanner where
  /-- Where the file is read next. -/
  cursor : Nat
  /-- Where the next record starts. -/
  position : UInt64
  index : Std.ExtTreeMap ChunkOffset ChunkRecord

namespace Scanner

/-- Why opening a file ends early. -/
inductive Halt
  | refused (error : FilterError)
  /-- A result that nothing checks is too large for 64 bits. -/
  | overflow

/-- A result of 64-bit arithmetic that is checked. -/
def checked (n : Nat) : Option UInt64 := if n < UInt64.size then some (UInt64.ofNat n) else none

/-- A result of 64-bit arithmetic that is not checked. -/
def unchecked (n : Nat) : Except Halt UInt64 :=
  match checked n with
  | some word => .ok word
  | none => .error .overflow

/-- The fields of a record before its coordinates. -/
structure Fields where
  dims : Nat
  mask : FilterMask
  length : Nat

/-- The fields in the first bytes of a record. -/
def fieldsOf (fixed : Bytes) : Fields where
  dims := Bytes.fromLittleEndian (fixed.take 2)
  mask := ⟨BitVec.ofNat 32 (Bytes.fromLittleEndian ((fixed.drop 4).take 4))⟩
  length := Bytes.fromLittleEndian (fixed.drop 8)

/-- Reads `n` bytes at the cursor, and the position after them. -/
def readExact (image : Bytes) (n cursor : Nat) : Except Halt (Bytes × Nat) :=
  match take n (image.drop cursor) with
  | .error error => .error (.refused error)
  | .ok (bytes, _) => .ok (bytes, cursor + n)

def readFields (image : Bytes) (cursor : Nat) : Except Halt (Fields × Nat) := do
  let (fixed, cursor) ← readExact image recordHeaderSize cursor
  if (fixed.drop 2).take 2 ≠ [0, 0] then .error (.refused (.storage .reservedBits))
  else .ok (fieldsOf fixed, cursor)

/-- Reads coordinates one by one. -/
def readOffset (image : Bytes) : (count cursor : Nat) → Except Halt (ChunkOffset × Nat)
  | 0, cursor => .ok ([], cursor)
  | count + 1, cursor => do
    let (bytes, cursor) ← readExact image 8 cursor
    let (offset, cursor) ← readOffset image count cursor
    .ok (UInt64.ofNat (Bytes.fromLittleEndian bytes) :: offset, cursor)

/-- Where the data of a record start. -/
def dataStart (position : UInt64) (dims : Nat) : Except Halt UInt64 := do
  let afterFields ← unchecked (position.toNat + recordHeaderSize)
  let extent ← unchecked (8 * dims)
  unchecked (afterFields.toNat + extent.toNat)

/-- Reads one record up to its data and seeks the next one. -/
def turn (image : Bytes) (s : Scanner) : Except Halt Scanner := do
  let (fields, cursor) ← readFields image s.cursor
  let (offset, _) ← readOffset image fields.dims cursor
  let start ← dataStart s.position fields.dims
  match (checked (start.toNat + fields.length)).filter fun next => next.toNat ≤ image.length with
  | none => .error (.refused (.storage (.truncatedRecord s.position.toNat)))
  | some next =>
    .ok ⟨next.toNat, next, s.index.insert offset ⟨start.toNat, fields.length, fields.mask⟩⟩

/-- At most `turns` turns of the loop, which ends at the end of the file.  There is no result if it is
not through by then. -/
def run (image : Bytes) : (turns : Nat) → Scanner → Option (Except Halt Scanner)
  | 0, s => if s.position.toNat < image.length then none else some (.ok s)
  | turns + 1, s =>
    if s.position.toNat < image.length then
      match turn image s with
      | .error halt => some (.error halt)
      | .ok s' => run image turns s'
    else some (.ok s)

/-- Opens a file with a number of turns. -/
def openWith (turns : Nat) (image : Bytes) : Option (Except Halt ChunkFile) :=
  match readExact image headerSize 0 with
  | .error halt => some (.error halt)
  | .ok (head, cursor) =>
    if head.take 4 ≠ magic then some (.error (.refused (.storage .badMagic)))
    else if Bytes.fromLittleEndian ((head.drop 4).take 2) ≠ version then
      some (.error (.refused (.storage .unsupportedVersion)))
    else
      (run image turns ⟨cursor, UInt64.ofNat headerSize, ∅⟩).map fun ended =>
        ended.map fun s => ⟨image.toArray, s.position.toNat, s.index⟩

/-- The scanner behind a record with this head. -/
def after (s : Scanner) (head : RecordHead) : Scanner :=
  let start := s.cursor + (recordHeaderSize + 8 * head.offset.length)
  ⟨start + head.length, UInt64.ofNat (start + head.length),
    s.index.insert head.offset ⟨start, head.length, head.mask⟩⟩

/-- The cursor is where the next record starts, in the file or at its end. -/
structure InStep (image : Bytes) (s : Scanner) : Prop where
  position : s.position.toNat = s.cursor
  cursor : s.cursor ≤ image.length

/-- Reading at a cursor does what reading what is left of the file does, and leaves the cursor at
`next`. -/
inductive Agrees {α : Type} (image : Bytes) (next : Nat) :
    Except FilterError (α × Bytes) → Except Halt (α × Nat) → Prop
  | failed (error : FilterError) : Agrees image next (.error error) (.error (.refused error))
  | read (value : α) (h : next ≤ image.length) :
      Agrees image next (.ok (value, image.drop next)) (.ok (value, next))

/-- The fields at the front of some bytes, and the bytes after them. -/
def takeFields (bytes : Bytes) : Except FilterError (Fields × Bytes) := do
  let (fixed, rest) ← take recordHeaderSize bytes
  if (fixed.drop 2).take 2 ≠ [0, 0] then .error (.storage .reservedBits)
  else .ok (fieldsOf fixed, rest)

/-- The coordinates at the front of some bytes, and the bytes after them. -/
def takeOffset (count : Nat) (bytes : Bytes) : Except FilterError (ChunkOffset × Bytes) :=
  (take (8 * count) bytes).map fun (coords, rest) => (coordinates count coords, rest)

variable {image bytes : Bytes} {s : Scanner} {n count cursor : Nat}

/-! ### Reading -/

theorem take_eq_error {error : FilterError} (h : take n bytes = .error error) :
    bytes.length < n ∧ error = .file .endOfFile := by
  rw [take, Bytes.splitAt?] at h
  split at h
  · cases h
  next hsplit =>
  split at hsplit
  · cases hsplit
  next hlength =>
  cases h
  rw [List.length_take] at hlength
  exact ⟨by omega, rfl⟩

theorem take_of_lt (h : bytes.length < n) : take n bytes = .error (.file .endOfFile) := by
  cases htake : take n bytes with
  | error error => rw [(take_eq_error htake).2]
  | ok parts =>
    obtain ⟨heq, hlength⟩ := eq_append_of_take htake
    rw [heq, List.length_append] at h
    omega

theorem Agrees.bind {α β : Type} {middle next : Nat} {slow : Except FilterError (α × Bytes)}
    {fast : Except Halt (α × Nat)} {f : α × Bytes → Except FilterError (β × Bytes)}
    {g : α × Nat → Except Halt (β × Nat)} (h : Agrees image middle slow fast)
    (hrest : ∀ value, middle ≤ image.length →
      Agrees image next (f (value, image.drop middle)) (g (value, middle))) :
    Agrees image next (slow >>= f) (fast >>= g) := by
  cases h with
  | failed error => exact .failed error
  | read value hmiddle => exact hrest value hmiddle

theorem agrees_readExact (h : cursor ≤ image.length) (n : Nat) :
    Agrees image (cursor + n) (take n (image.drop cursor)) (readExact image n cursor) := by
  rw [readExact]
  cases htake : take n (image.drop cursor) with
  | error error => exact .failed error
  | ok parts =>
    obtain ⟨front, rest⟩ := parts
    obtain ⟨heq, hlength⟩ := eq_append_of_take htake
    have hrest : rest = image.drop (cursor + n) := by
      rw [← List.drop_drop, heq, List.drop_left' hlength]
    have hnext : cursor + n ≤ image.length := by
      have hleft := congrArg List.length heq
      rw [List.length_drop, List.length_append] at hleft
      omega
    rw [hrest]
    exact .read front hnext

theorem agrees_readFields (h : cursor ≤ image.length) :
    Agrees image (cursor + recordHeaderSize) (takeFields (image.drop cursor))
      (readFields image cursor) := by
  refine (agrees_readExact h recordHeaderSize).bind fun fixed hnext => ?_
  dsimp only
  split
  · exact .failed _
  · exact .read (fieldsOf fixed) hnext

theorem takeOffset_succ (count : Nat) (bytes : Bytes) :
    takeOffset (count + 1) bytes = (do
      let (coord, rest) ← take 8 bytes
      let (offset, rest) ← takeOffset count rest
      .ok (UInt64.ofNat (Bytes.fromLittleEndian coord) :: offset, rest)) := by
  unfold takeOffset
  cases hcoord : take 8 bytes with
  | error error =>
    obtain ⟨hlt, rfl⟩ := take_eq_error hcoord
    rw [take_of_lt (by omega)]
    rfl
  | ok parts =>
    obtain ⟨coord, rest⟩ := parts
    obtain ⟨rfl, hlength⟩ := eq_append_of_take hcoord
    show _ = (Except.map _ (take (8 * count) rest)) >>= _
    cases hothers : take (8 * count) rest with
    | error error =>
      obtain ⟨hlt, rfl⟩ := take_eq_error hothers
      rw [take_of_lt (by rw [List.length_append]; omega)]
      rfl
    | ok parts =>
      obtain ⟨others, rest⟩ := parts
      obtain ⟨rfl, hcount⟩ := eq_append_of_take hothers
      have hall : (coord ++ others).length = 8 * (count + 1) := by
        rw [List.length_append, hlength, hcount, Nat.mul_succ, Nat.add_comm]
      rw [← List.append_assoc, take_append_of_length hall]
      show Except.ok (coordinates (count + 1) (coord ++ others), rest) = .ok (_, rest)
      rw [coordinates, List.take_left' hlength, List.drop_left' hlength]

/-- Coordinates are read one by one as they are all at once. -/
theorem agrees_readOffset (h : cursor ≤ image.length) (count : Nat) :
    Agrees image (cursor + 8 * count) (takeOffset count (image.drop cursor))
      (readOffset image count cursor) := by
  induction count generalizing cursor with
  | zero => exact .read [] h
  | succ count ih =>
    rw [takeOffset_succ, readOffset]
    refine (agrees_readExact h 8).bind fun coord hnext => ?_
    have hnext' : cursor + 8 * (count + 1) = cursor + 8 + 8 * count := by omega
    rw [hnext']
    exact (ih hnext).bind fun offset hlast => .read _ hlast

/-! ### Positions -/

theorem checked_of_lt (h : n < UInt64.size) : checked n = some (UInt64.ofNat n) := if_pos h

theorem unchecked_of_lt (h : n < UInt64.size) : unchecked n = .ok (UInt64.ofNat n) := by
  rw [unchecked, checked_of_lt h]

theorem dataStart_eq {position : UInt64} {dims start : Nat}
    (hstart : position.toNat + (recordHeaderSize + 8 * dims) = start) (h : start < UInt64.size) :
    dataStart position dims = .ok (UInt64.ofNat start) := by
  have hfields : position.toNat + recordHeaderSize < UInt64.size := by omega
  have hextent : 8 * dims < UInt64.size := by omega
  rw [dataStart, unchecked_of_lt hfields, unchecked_of_lt hextent]
  show unchecked ((UInt64.ofNat _).toNat + (UInt64.ofNat _).toNat) = _
  rw [UInt64.toNat_ofNat_of_lt' hfields, UInt64.toNat_ofNat_of_lt' hextent, Nat.add_assoc, hstart,
    unchecked_of_lt h]

/-! ### Turns -/

theorem length_coordinates (count : Nat) (bytes : Bytes) :
    (coordinates count bytes).length = count := by
  induction count generalizing bytes with
  | zero => rfl
  | succ count ih => rw [coordinates, List.length_cons, ih]

theorem length_of_takeOffset {offset : ChunkOffset} {rest : Bytes}
    (h : takeOffset count bytes = .ok (offset, rest)) : offset.length = count := by
  rw [takeOffset] at h
  cases htake : take (8 * count) bytes with
  | error error => rw [htake] at h; cases h
  | ok parts =>
    rw [htake] at h
    cases h
    exact length_coordinates count parts.1

theorem readHead_eq (bytes : Bytes) : readHead bytes = (do
    let (fields, rest) ← takeFields bytes
    let (offset, rest) ← takeOffset fields.dims rest
    .ok ⟨offset, fields.mask, fields.length, rest⟩) := by
  rw [readHead, takeFields]
  cases take recordHeaderSize bytes with
  | error error => rfl
  | ok parts =>
    obtain ⟨fixed, rest⟩ := parts
    show _ = (if (fixed.drop 2).take 2 ≠ [0, 0] then Except.error (FilterError.storage .reservedBits)
      else .ok (fieldsOf fixed, rest)) >>= _
    dsimp only
    split
    · rfl
    · show _ = (Except.map _ (take (8 * (fieldsOf fixed).dims) rest)) >>= _
      rw [fieldsOf]
      dsimp only
      cases take (8 * Bytes.fromLittleEndian (fixed.take 2)) rest with
      | error error => rfl
      | ok parts => rfl

/-- Data are found in the file exactly if the sum of their position and their length is checked to be no
larger than the file. -/
theorem filter_checked (hsize : image.length < UInt64.size) (n : Nat) :
    ((checked n).filter fun next => next.toNat ≤ image.length) =
      if n ≤ image.length then some (UInt64.ofNat n) else none := by
  by_cases hn : n < UInt64.size
  · rw [checked_of_lt hn, Option.filter_some, UInt64.toNat_ofNat_of_lt' hn]
    simp only [decide_eq_true_eq]
  · rw [checked, if_neg hn, if_neg (by omega)]
    rfl

/-- **A turn reads what scanning reads next.** -/
theorem turn_eq (hsize : image.length < UInt64.size) (hs : s.InStep image) :
    turn image s =
      match readHead (image.drop s.cursor) with
      | .error error => .error (.refused error)
      | .ok head =>
        match take head.length head.rest with
        | .error _ => .error (.refused (.storage (.truncatedRecord s.cursor)))
        | .ok _ => .ok (s.after head) := by
  obtain ⟨hposition, hcursor⟩ := hs
  have hfields := agrees_readFields hcursor
  rw [readHead_eq, turn]
  generalize takeFields (image.drop s.cursor) = slow at hfields ⊢
  generalize readFields image s.cursor = fast at hfields ⊢
  cases hfields with
  | failed error => rfl
  | read fields hafter =>
    have hoffset := agrees_readOffset hafter fields.dims
    simp only [bind, Except.bind]
    generalize hslow : takeOffset fields.dims _ = slow at hoffset ⊢
    generalize readOffset image fields.dims _ = fast at hoffset ⊢
    cases hoffset with
    | failed error => rfl
    | read offset hstart =>
      have hdims := length_of_takeOffset hslow
      rw [Nat.add_assoc] at hstart ⊢
      generalize hsum : s.cursor + (recordHeaderSize + 8 * fields.dims) = start at hstart ⊢
      -- the sum of the parts is where the cursor has come to
      have hlt : start < UInt64.size := Nat.lt_of_le_of_lt hstart hsize
      have hdataStart : dataStart s.position fields.dims = .ok (UInt64.ofNat start) :=
        dataStart_eq (by rw [hposition, hsum]) hlt
      simp only [hdataStart, UInt64.toNat_ofNat_of_lt' hlt, filter_checked hsize, hposition, after,
        hdims, hsum]
      cases hdata : take fields.length (image.drop start) with
      | error error =>
        obtain ⟨hshort, -⟩ := take_eq_error hdata
        rw [List.length_drop] at hshort
        rw [if_neg (by omega)]
      | ok parts =>
        have hlength := length_of_take hdata
        rw [List.length_drop] at hlength
        have hnext : start + fields.length < UInt64.size := by omega
        rw [if_pos (by omega)]
        dsimp only
        rw [UInt64.toNat_ofNat_of_lt' hnext]

/-! ### Runs -/

/-- A turn keeps the scanner in step, and leaves what scanning leaves: sixteen bytes less, or fewer. -/
theorem InStep.after (hsize : image.length < UInt64.size) (hs : s.InStep image) {head : RecordHead}
    (hhead : readHead (image.drop s.cursor) = .ok head) {data rest : Bytes}
    (hdata : take head.length head.rest = .ok (data, rest)) :
    (s.after head).InStep image ∧ image.drop (s.after head).cursor = rest ∧
      rest.length + 16 ≤ (image.drop s.cursor).length := by
  obtain ⟨front, hfront, hwidth⟩ := eq_append_of_readHead hhead
  obtain ⟨hrest, hlength⟩ := eq_append_of_take hdata
  have hleft : (image.drop s.cursor).length =
      recordHeaderSize + 8 * head.offset.length + (head.length + rest.length) := by
    rw [hfront, hrest, List.length_append, List.length_append, hwidth, hlength]
  have hnext : (s.after head).cursor ≤ image.length := by
    have hcursor := hs.cursor
    rw [List.length_drop] at hleft
    simp only [Scanner.after]
    omega
  refine ⟨⟨UInt64.toNat_ofNat_of_lt' (Nat.lt_of_le_of_lt hnext hsize), hnext⟩, ?_, ?_⟩
  · rw [Scanner.after, Nat.add_assoc, ← List.drop_drop, ← List.drop_drop, hfront,
      List.drop_left' hwidth, hrest, List.drop_left' hlength]
  · rw [hleft, recordHeaderSize]
    omega

/-- How the loop ends if scanning ends with an index or a failure. -/
def ending (image : Bytes) :
    Except FilterError (Std.ExtTreeMap ChunkOffset ChunkRecord) → Except Halt Scanner
  | .error error => .error (.refused error)
  | .ok index => .ok ⟨image.length, UInt64.ofNat image.length, index⟩

/-- A loop that is in step has come to the end exactly if nothing of the file is left. -/
theorem InStep.lt_iff (hs : s.InStep image) :
    s.position.toNat < image.length ↔ image.drop s.cursor ≠ [] := by
  rw [hs.position, ne_eq, List.drop_eq_nil_iff, Nat.not_le]

theorem InStep.eq_of_drop_eq_nil (hs : s.InStep image) (h : image.drop s.cursor = []) :
    s = ⟨image.length, UInt64.ofNat image.length, s.index⟩ := by
  obtain ⟨cursor, position, index⟩ := s
  obtain ⟨hposition, hcursor⟩ := hs
  dsimp only at hposition hcursor h ⊢
  obtain rfl : cursor = image.length := Nat.le_antisymm hcursor (List.drop_eq_nil_iff.1 h)
  rw [← hposition, UInt64.ofNat_toNat]

/-- **The loop does what scanning does**, in at most one turn more than there is room for records. -/
theorem exists_run_eq (hsize : image.length < UInt64.size) {position : Nat}
    {index : Std.ExtTreeMap ChunkOffset ChunkRecord} (hs : s.InStep image)
    (hposition : s.cursor = position) (hbytes : image.drop s.cursor = bytes)
    (hindex : s.index = index) :
    ∃ turns, 16 * turns ≤ bytes.length + 16 ∧
      run image turns s = some (ending image (scan position bytes index)) := by
  fun_induction scan position bytes index generalizing s with
  | case1 position index =>
    refine ⟨0, by simp, ?_⟩
    have hend := hs.eq_of_drop_eq_nil hbytes
    rw [run, if_neg (fun hlt => hs.lt_iff.1 hlt hbytes), ending, ← hindex, ← hend]
  | case2 position bytes index hne error hhead =>
    subst hbytes
    refine ⟨1, by omega, ?_⟩
    rw [run, if_pos (hs.lt_iff.2 hne), turn_eq hsize hs, hhead]
    rfl
  | case3 position bytes index hne head hhead error hdata =>
    subst hbytes
    refine ⟨1, by omega, ?_⟩
    rw [run, if_pos (hs.lt_iff.2 hne), turn_eq hsize hs, hhead]
    dsimp only
    rw [hdata, hposition]
    rfl
  | case4 position bytes index hne head hhead data rest hdata hlt hlen start =>
    rename_i ih
    subst hbytes hposition hindex
    obtain ⟨hnext, hdrop, hleft⟩ := hs.after hsize hhead hdata
    obtain ⟨turns, hturns, hrun⟩ := ih hnext rfl hdrop rfl
    refine ⟨turns + 1, by omega, ?_⟩
    rw [run, if_pos (hs.lt_iff.2 hne), turn_eq hsize hs, hhead]
    dsimp only
    rw [hdata]
    exact hrun

/-- **Opening with a cursor opens what scanning opens**, and neither fails to end nor overflows. -/
theorem exists_openWith_eq (hsize : image.length < UInt64.size) :
    ∃ turns, 16 * turns ≤ image.length + 16 ∧
      openWith turns image = some ((ofImage image).mapError Halt.refused) := by
  have hheader := agrees_readExact (Nat.zero_le image.length) headerSize
  rw [List.drop_zero, Nat.zero_add] at hheader
  simp only [openWith, ofImage]
  generalize take headerSize image = slow at hheader ⊢
  generalize readExact image headerSize 0 = fast at hheader ⊢
  cases hheader with
  | failed error => exact ⟨0, Nat.zero_le _, rfl⟩
  | read head hbody =>
    dsimp only
    by_cases hmagic : head.take 4 ≠ magic
    · exact ⟨0, Nat.zero_le _, by rw [if_pos hmagic, if_pos hmagic]; rfl⟩
    by_cases hversion : Bytes.fromLittleEndian ((head.drop 4).take 2) ≠ version
    · refine ⟨0, Nat.zero_le _, ?_⟩
      rw [if_neg hmagic, if_neg hmagic, if_pos hversion, if_pos hversion]
      rfl
    have hstart : InStep image ⟨headerSize, UInt64.ofNat headerSize, ∅⟩ := ⟨rfl, hbody⟩
    obtain ⟨turns, hturns, hrun⟩ := exists_run_eq hsize hstart rfl rfl rfl
    refine ⟨turns, ?_, ?_⟩
    · rw [List.length_drop] at hturns
      omega
    · rw [if_neg hmagic, if_neg hmagic, if_neg hversion, if_neg hversion, hrun]
      cases scan headerSize (image.drop headerSize) ∅ with
      | error error => rfl
      | ok index =>
        show some (Except.ok (⟨_, (UInt64.ofNat image.length).toNat, _⟩ : ChunkFile)) = _
        rw [UInt64.toNat_ofNat_of_lt' hsize]
        rfl

end Scanner

/-! ### Main statement -/

/-- What opening a file must do, whatever bytes it has. -/
structure OpensByGrammar (image : Bytes) : Prop where
  opens : (∃ f, ofImage image = .ok f) ↔ ∃ writes, IsChunkFile image writes
  lists : ∀ f writes, ofImage image = .ok f → IsChunkFile image writes → Lists image writes f
  fails : (¬ ∃ writes, IsChunkFile image writes) → ∃ error, ofImage image = .error error
  /-- If the length of the file is a number of 64 bits, the loop that opens it ends, with nothing that is
  too large for 64 bits, and with this very result. -/
  ends : image.length < UInt64.size → ∃ turns, 16 * turns ≤ image.length + 16 ∧
    Scanner.openWith turns image = some ((ofImage image).mapError Scanner.Halt.refused)

/-- **A file is opened exactly if it has the grammar of chunk files**, and its records are then the last
ones of their offsets. -/
theorem opensByGrammar (image : Bytes) : OpensByGrammar image where
  opens := exists_ofImage_iff image
  lists f writes hopen hfile := by
    obtain ⟨a, b, body, rfl, hrecords⟩ := hfile
    obtain ⟨f', hopen', hlists⟩ := ofImage_of_records a b hrecords
    rw [hopen] at hopen'
    cases hopen'
    exact hlists
  fails h := by
    cases hopen : ofImage image with
    | error error => exact ⟨error, rfl⟩
    | ok f => exact absurd ((exists_ofImage_iff image).1 ⟨f, hopen⟩) h
  ends := Scanner.exists_openWith_eq

/-- A record that says it has as many bytes as 64 bits can count is cut off, and no sum overflows. -/
example : Scanner.openWith 1 (header ++ recordHeader [] ⟨0⟩ (UInt64.size - 1)) =
    some (.error (.refused (.storage (.truncatedRecord 8)))) := by
  rfl

end FilteredChunks.ChunkFile
