import FilteredChunks.FilterClass

/-!
# The fletcher32 filter

The checksum of a byte string is a pair of sums over its big-endian 16-bit words, an odd last byte
being the high half of a last word: the sum of the words, and the sum of all sums so far.  Both are
taken modulo 65535, which is done once every 360 words and at the end.

The filter appends the checksum on write; on read it verifies and drops it.
-/

namespace FilteredChunks.Fletcher32

/-- The 16-bit words of a byte string. -/
def words : Bytes → List Nat
  | [] => []
  | [high] => [high.toNat * 256]
  | high :: low :: rest => (high.toNat * 256 + low.toNat) :: words rest

/-- Both sums, and the number of words added since they were last reduced. -/
structure Sums where
  first : Nat
  second : Nat
  pending : Nat
  deriving DecidableEq

/-- Words added between two reductions. -/
def blockWords : Nat := 360

namespace Sums

def zero : Sums := ⟨0, 0, 0⟩

def reduce (s : Sums) : Sums := ⟨s.first % 65535, s.second % 65535, 0⟩

/-- Adds a word and reduces when a block is full. -/
def add (s : Sums) (word : Nat) : Sums :=
  let added : Sums := ⟨s.first + word, s.second + (s.first + word), s.pending + 1⟩
  if added.pending = blockWords then added.reduce else added

end Sums

/-- The second sum in the high half, the first in the low half. -/
def checksum (data : Bytes) : Nat :=
  let s := ((words data).foldl Sums.add .zero).reduce
  s.second * 65536 + s.first

/-- Bytes of a stored checksum. -/
def width : Nat := 4

/-- Appends the checksum, or verifies and drops it.  Checksums are not verified if the flags forbid
it.  A slice that is not there would be a crash. -/
def transform (flags : FilterFlags) (_ : List UInt32) (nbytes : Nat) (data : Bytes) : Reply :=
  let n := min nbytes data.length
  if flags.contains .reverse then
    if n < width then .produced 0 data
    else if flags.contains .skipChecks then .produced (n - width) data
    else
      match Bytes.slice? data (n - width) n, Bytes.slice? data 0 (n - width) with
      | some stored, some payload =>
        if Bytes.fromLittleEndian stored = checksum payload then .produced (n - width) data
        else .produced 0 data
      | _, _ => .crashed
  else
    match Bytes.slice? data 0 n with
    | some payload => .produced (n + width) (payload ++ Bytes.littleEndian width (checksum payload))
    | none => .crashed

def filterClass : FilterClass :=
  .ofCodec .fletcher32 "fletcher32" (.ofTransform transform) (.builtin .fletcher32)

end FilteredChunks.Fletcher32
