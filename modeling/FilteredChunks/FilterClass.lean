import FilteredChunks.Bytes
import FilteredChunks.Datatype
import FilteredChunks.FilterStep

/-!
# Codecs and filter classes

A codec transforms the bytes of a chunk and, with the reverse flag, undoes the transform.  Before any
chunk is written it may be asked whether it fits the data and may tune the client words of its step.
A filter class is a codec under a number and a name, with what it is able to do.
-/

namespace FilteredChunks

/-- What a codec leaves behind. -/
inductive Reply
  /-- The number of valid bytes, 0 for failure, and the buffer, of any size. -/
  | produced (count : Nat) (buffer : Bytes)
  | crashed

/-- What the hooks of a codec learn about the data: nothing for a plain stream of bytes. -/
structure Target where
  datatype : Option Datatype
  dataspace : Option Dataspace

namespace Target

def untyped : Target := ⟨none, none⟩

def typed (datatype : Datatype) (dataspace : Dataspace) : Target := ⟨some datatype, some dataspace⟩

end Target

/-- The answer of a tuning hook: the new client words, if it set any, and how it ended. -/
structure Tuning where
  words : Option (List UInt32)
  result : Except String Unit

/-- A reversible transform with its two hooks. -/
structure Codec where
  /-- Given flags, client words, the number of valid bytes and the buffer. -/
  transform : FilterFlags → List UInt32 → Nat → Bytes → Reply
  /-- Whether the filter fits; a failure is the reason why that cannot be told. -/
  canApply : Target → Except String Bool
  /-- Given the step that is to be tuned. -/
  setLocal : FilterStep → Target → Tuning

namespace Codec

/-- A transform that fits everything and tunes nothing. -/
def ofTransform (transform : FilterFlags → List UInt32 → Nat → Bytes → Reply) : Codec where
  transform := transform
  canApply _ := .ok true
  setLocal _ _ := ⟨none, .ok ()⟩

end Codec

/-- Where a codec comes from.  Equal origins mean the same codec. -/
inductive Origin
  | builtin (id : FilterId)
  /-- Handed in by an application, which numbers its codecs. -/
  | application (serial : Nat)
  | library (path : String)
  deriving DecidableEq

/-- A filter that can be looked up. -/
structure FilterClass where
  id : FilterId
  name : String
  encoder : Bool
  decoder : Bool
  codec : Codec
  origin : Origin

namespace FilterClass

/-- A class that encodes and decodes. -/
def ofCodec (id : FilterId) (name : String) (codec : Codec) (origin : Origin) : FilterClass :=
  ⟨id, name, true, true, codec, origin⟩

/-- One bit for encoding and one for decoding. -/
def configBits (c : FilterClass) : Nat :=
  (if c.encoder then 1 else 0) + if c.decoder then 2 else 0

def sameCodec (a b : FilterClass) : Bool := a.origin == b.origin

end FilterClass

end FilteredChunks
