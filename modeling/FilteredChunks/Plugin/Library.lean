import FilteredChunks.FilterClass
import FilteredChunks.FilterError
import FilteredChunks.Text.Utf8

/-!
# Plugin libraries

A plugin is a library that exports a function telling its type, a function giving the descriptor of
its filter, or descriptors under names of their own.  A descriptor is checked before its filter is
used, and the filter's answers are checked at every call.
-/

namespace FilteredChunks.Plugin

/-- What a plugin's filter function leaves: the number of valid bytes it reports and the buffer, if
it left one. -/
structure RawReply where
  count : Nat
  buffer : Option Bytes
  deriving DecidableEq

/-- A plugin's filter function, given flags, client words, the number of valid bytes and the
buffer. -/
abbrev RawTransform := FilterFlags → List UInt32 → Nat → Bytes → RawReply

/-- The description of a filter in a library. -/
structure Descriptor where
  version : Int
  id : FilterId
  encoder : Bool
  decoder : Bool
  /-- The bytes of the name, up to a zero byte. -/
  name : Option Bytes
  transform : Option RawTransform

/-- What a library exports. -/
structure Library where
  /-- The answer of the function telling the type. -/
  pluginType : Option Int
  /-- The answer of the function giving the descriptor, which may be null. -/
  info : Option (Option Descriptor)
  /-- Descriptors exported by name. -/
  symbols : List (String × Descriptor)

/-- A file of a plugin directory.  A file that is no library, or a directory, cannot be opened. -/
structure LibraryFile where
  name : String
  library : Option Library

/-- The readable directories and their files. -/
abbrev LibraryTree := String → Option (List LibraryFile)

/-- The descriptor version that is understood. -/
def descriptorVersion : Int := 1

/-- The type of a plugin that is a filter. -/
def filterType : Int := 0

/-- The codec of a plugin's filter.  Its answer is accepted if it reports some bytes, no more than the
buffer it left holds; otherwise it failed and the buffer stays as it was.  The filter is never given
an empty buffer. -/
def codecOf (raw : RawTransform) : Codec :=
  .ofTransform fun flags words nbytes data =>
    let reply := raw flags words nbytes (if data.isEmpty then [0] else data)
    match reply.buffer with
    | some buffer =>
      if reply.count ≠ 0 ∧ reply.count ≤ buffer.length then .produced reply.count buffer
      else .produced 0 data
    | none => .produced 0 data

/-- The name of a described filter. -/
def Descriptor.filterName (d : Descriptor) : String :=
  match d.name with
  | some bytes => Utf8.decode (bytes.takeWhile (· ≠ 0))
  | none => s!"filter {d.id}"

/-- The class a descriptor of the library at `path` describes. -/
def classOf (path : String) (descriptor : Option Descriptor) : Except FilterError FilterClass :=
  match descriptor with
  | none => .error (.invalidPlugin path .nullDescriptor)
  | some d =>
    if d.version ≠ descriptorVersion then .error (.invalidPlugin path .unsupportedVersion)
    else if !d.id.isValid then .error (.invalidPlugin path .idOutOfRange)
    else
      match d.transform with
      | none => .error (.invalidPlugin path .noFilterFunction)
      | some raw => .ok ⟨d.id, d.filterName, d.encoder, d.decoder, codecOf raw, .library path⟩

end FilteredChunks.Plugin
