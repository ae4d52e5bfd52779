import FilteredChunks.Filter.Compression
import FilteredChunks.FilterClass

/-!
# The deflate filter

Compresses on write, at the level in the first client word, and expands on read.  Levels above 9 and
streams that cannot be expanded are failures that leave the buffer alone.
-/

namespace FilteredChunks.DeflateFilter

/-- The level where none is given. -/
def defaultLevel : UInt32 := 6

/-- The highest level. -/
def maxLevel : Nat := 9

/-- What stands behind the valid bytes is dropped, unless the filter fails. -/
def transform [Compression] (flags : FilterFlags) (words : List UInt32) (nbytes : Nat)
    (data : Bytes) : Reply :=
  let input := data.take nbytes
  let level := (words.head?.getD defaultLevel).toNat
  let output? :=
    if flags.contains .reverse then Compression.expand input
    else if maxLevel < level then none
    else Compression.compress level input
  match output? with
  | some output => .produced output.length output
  | none => .produced 0 data

def filterClass [Compression] : FilterClass :=
  .ofCodec .deflate "deflate" (.ofTransform transform) (.builtin .deflate)

end FilteredChunks.DeflateFilter
