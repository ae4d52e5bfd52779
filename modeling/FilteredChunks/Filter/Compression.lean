import FilteredChunks.Deflate.Zlib

/-!
# Compressing and expanding

The deflate filter only hands its bytes over: what compresses them at a level, and expands them again,
is a `Compression`.  The one that is used is the zlib format; what is proved of the filter holds of any
that keeps the laws it needs.
-/

namespace FilteredChunks

/-- A way to compress bytes at a level and to expand them again.  Either may fail. -/
class Compression where
  compress : Nat → Bytes → Option Bytes
  expand : Bytes → Option Bytes

/-- The zlib format. -/
instance Compression.zlib : Compression where
  compress level bytes := some (Deflate.zlibCompress level bytes)
  expand := Deflate.zlibExpand

end FilteredChunks
