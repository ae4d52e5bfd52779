import FilteredChunks.Filter.ZeroRuns
import FilteredChunks.FilterClass

/-!
# Sample codecs

Small codecs to try a pipeline with.  Some are honest transforms; the others each have one way of
failing, of telling a wrong count or of leaving the buffer in disorder.  Together they show an engine
every kind of reply.
-/

namespace FilteredChunks

/-- What a sample codec does with the valid bytes. -/
inductive SampleCodec
  /-- Leaves them alone. -/
  | identity
  /-- Fails. -/
  | failing
  /-- Leaves them alone and tells this count. -/
  | claiming (count : Nat)
  /-- Leaves them alone and tells half the count. -/
  | halving
  /-- Crashes. -/
  | crashing
  /-- Complements every byte. -/
  | complement
  /-- Fails forward only. -/
  | failingForward
  /-- Fails in reverse only. -/
  | failingReverse
  /-- Fails if they start with this byte. -/
  | failingAt (first : UInt8)
  /-- Fails, having overwritten them with a byte and put one more behind the buffer. -/
  | scribbling (byte : UInt8)
  /-- Fails, having thrown the buffer away. -/
  | clearing
  /-- Puts a byte behind them; in reverse it tells one less. -/
  | appending (byte : UInt8)
  /-- Adds the low byte of the first client word to every byte without carry, or `key` if there is no
  word. -/
  | masking (key : UInt8)
  /-- Writes every byte twice. -/
  | doubling
  /-- Shortens runs of zeros. -/
  | zeroRuns
  /-- Leaves them alone, with this many bytes behind them in the buffer; crashes if the buffer cannot
  hold so many. -/
  | slack (extra : Nat)
  deriving DecidableEq

namespace SampleCodec

/-- A codec by its name, the identity for any other, with a number that gives its count or byte. -/
def ofName (name : String) (number : Nat) : SampleCodec :=
  let byte := UInt8.ofNat number
  match name with
  | "fail" => failing
  | "claim" => claiming number
  | "halve" => halving
  | "panic" => crashing
  | "invert" => complement
  | "fail_write" => failingForward
  | "fail_read" => failingReverse
  | "fail_first" => failingAt byte
  | "scribble_fail" => scribbling byte
  | "clear_fail" => clearing
  | "append" => appending byte
  | "xor" => masking byte
  | "double" => doubling
  | "zero_rle" => zeroRuns
  | "slack" => slack number
  | _ => identity

/-- The data with the first `n` bytes changed. -/
def mapFirst (n : Nat) (f : UInt8 → UInt8) (data : Bytes) : Bytes := (data.take n).map f ++ data.drop n

/-- Every byte twice. -/
def twice (data : Bytes) : Bytes := data.flatMap fun b => [b, b]

/-- The first byte of every pair. -/
def firstOfPairs : Bytes → Bytes
  | a :: _ :: rest => a :: firstOfPairs rest
  | _ => []

/-- The low byte of the first client word. -/
def keyOf (words : List UInt32) (default : UInt8) : UInt8 :=
  match words with
  | word :: _ => word.toUInt8
  | [] => default

/-- A reply of which every byte is valid. -/
def whole (data : Bytes) : Reply := .produced data.length data

def transform (codec : SampleCodec) (flags : FilterFlags) (words : List UInt32) (nbytes : Nat)
    (data : Bytes) : Reply :=
  let count := min nbytes data.length
  let valid := data.take count
  let reverse := flags.contains .reverse
  match codec with
  | identity => .produced nbytes data
  | failing => .produced 0 data
  | claiming n => .produced n data
  | halving => .produced (nbytes / 2) data
  | crashing => .crashed
  | complement => .produced nbytes (mapFirst count (fun b => 255 - b) data)
  | failingForward => .produced (if reverse then nbytes else 0) data
  | failingReverse => .produced (if reverse then 0 else nbytes) data
  | failingAt first => .produced (if valid.head? = some first then 0 else nbytes) data
  | scribbling byte => .produced 0 (mapFirst count (fun _ => byte) data ++ [byte])
  | clearing => .produced 0 []
  | appending byte =>
    if reverse then .produced (nbytes - 1) data else whole (data.take nbytes ++ [byte])
  | masking key => .produced count (mapFirst count (· ^^^ keyOf words key) data)
  | doubling => whole (if reverse then firstOfPairs valid else twice valid)
  | zeroRuns =>
    if reverse then
      match ZeroRuns.decode valid with
      | some expanded => whole expanded
      | none => .produced 0 data
    else whole (ZeroRuns.encode valid)
  | slack extra =>
    if Bytes.maxLength < count + extra then .crashed
    else .produced count (valid ++ List.replicate extra 0xee)

end SampleCodec

/-- When a sample codec says that it fits. -/
inductive SampleCheck
  | always
  | never
  /-- It cannot be told. -/
  | unknown (reason : String)
  /-- If elements have at least this many bytes. -/
  | atLeast (size : Nat)
  /-- If there are at most this many elements. -/
  | atMost (elements : Nat)
  deriving DecidableEq

namespace SampleCheck

def canApply (check : SampleCheck) (target : Target) : Except String Bool :=
  match check with
  | always => .ok true
  | never => .ok false
  | unknown reason => .error reason
  | atLeast size =>
    match target.datatype with
    | some datatype => .ok (decide (size ≤ datatype.size))
    | none => .error "no datatype"
  | atMost elements =>
    match target.dataspace with
    | some dataspace => .ok (decide (dataspace.elements ≤ elements))
    | none => .error "no dataspace"

end SampleCheck

/-- How a sample codec tunes its client words. -/
inductive SampleTuning
  | keep
  | failing (reason : String)
  /-- The size of an element, or 0, and the extents of the data. -/
  | sizeAndExtents
  /-- One more word. -/
  | oneMore
  deriving DecidableEq

namespace SampleTuning

def setLocal (tuning : SampleTuning) (step : FilterStep) (target : Target) : Tuning :=
  match tuning with
  | keep => ⟨none, .ok ()⟩
  | failing reason => ⟨none, .error reason⟩
  | sizeAndExtents =>
    let size := match target.datatype with
      | some datatype => datatype.size
      | none => 0
    let extents := match target.dataspace with
      | some (.simple extents) => extents
      | _ => []
    ⟨some (UInt32.ofNat size :: extents.map (·.toUInt32)), .ok ()⟩
  | oneMore => ⟨some (step.words ++ [7]), .ok ()⟩

end SampleTuning

/-- A sample codec with its hooks. -/
def Codec.ofSample (codec : SampleCodec) (check : SampleCheck) (tuning : SampleTuning) : Codec where
  transform := codec.transform
  canApply := check.canApply
  setLocal := tuning.setLocal

end FilteredChunks
