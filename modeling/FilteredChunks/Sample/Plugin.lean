import FilteredChunks.Plugin.Library
import FilteredChunks.Sample.Codec

/-!
# Sample plugin filters

Filter functions as a plugin library may export them: honest ones, and ones whose count and buffer
do not fit together, which the codec of a plugin must not believe.
-/

namespace FilteredChunks.Plugin

open SampleCodec (mapFirst keyOf firstOfPairs)

/-- What a sample filter function does; the key is the low byte of the first client word. -/
inductive SampleFilter
  /-- Every byte twice, under the key. -/
  | doubling
  /-- Fails, having overwritten the valid bytes. -/
  | failing
  /-- Tells one byte more than the buffer holds. -/
  | overclaiming
  /-- Leaves no buffer. -/
  | dropping
  /-- Leaves as many more bytes as the key says, and one. -/
  | slack
  /-- Changes the valid bytes by the key. -/
  | masking
  /-- Leaves one byte less than were valid and tells one, or none. -/
  | shrinking
  /-- Tells that all of the buffer is valid. -/
  | whole
  deriving DecidableEq

namespace SampleFilter

/-- A filter function by its name, the doubling one for any other. -/
def ofName : String → SampleFilter
  | "fail" => failing
  | "over" => overclaiming
  | "nullout" => dropping
  | "slack" => slack
  | "xor" => masking
  | "shrink" => shrinking
  | "whole" => whole
  | _ => doubling

def run (filter : SampleFilter) : RawTransform := fun flags words nbytes data =>
  let key := keyOf words 0
  let valid := data.take nbytes
  match filter with
  | doubling =>
    if flags.contains .reverse then
      ⟨nbytes / 2, some ((firstOfPairs valid).map (· ^^^ key) ++ data.drop (nbytes / 2))⟩
    else ⟨2 * nbytes, some (SampleCodec.twice (valid.map (· ^^^ key)))⟩
  | failing => ⟨0, some (mapFirst nbytes (fun _ => 0xaa) data)⟩
  | overclaiming => ⟨data.length + 1, some data⟩
  | dropping => ⟨nbytes, none⟩
  | slack => ⟨nbytes, some (valid ++ List.replicate (key.toNat + 1) 0xee)⟩
  | masking => ⟨nbytes, some (mapFirst nbytes (· ^^^ key) data)⟩
  | shrinking => ⟨if nbytes > 1 then 1 else 0, some (data.take (nbytes - 1))⟩
  | whole => ⟨data.length, some data⟩

end SampleFilter

end FilteredChunks.Plugin
