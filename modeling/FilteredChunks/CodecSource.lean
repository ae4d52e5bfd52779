import FilteredChunks.FilterClass
import FilteredChunks.FilterError
import FilteredChunks.Metrics

/-!
# Sources of codecs

Where a run gets the codec of each step.  A source may be able to load a codec it does not have yet,
which changes the source.
-/

namespace FilteredChunks

/-- The answer to a request to load a codec. -/
structure Loading (σ : Type) where
  result : Except FilterError (Option FilterClass)
  source : σ
  metrics : List Metrics.Update

/-- A source of codecs whose state is a `σ`. -/
class CodecSource (σ : Type) where
  /-- The class for a step at a position, if it is known. -/
  codec : σ → Nat → FilterStep → Option FilterClass
  /-- Tries to get hold of a class that is not known. -/
  load : σ → FilterStep → Loading σ

/-- The source that knows no codec and loads none. -/
structure NoCodecs where

instance : CodecSource NoCodecs where
  codec _ _ _ := none
  load source _ := ⟨.ok none, source, []⟩

end FilteredChunks
