import FilteredChunks.CodecSource

/-!
# A sample source of codecs

A source that has nothing at hand and gets every codec by loading it, so that a run shows when it
looks a codec up, when it asks for one to be loaded, and what it does when loading fails.
-/

namespace FilteredChunks

/-- The classes that can be loaded, or the reason why loading fails. -/
structure SampleSource where
  classes : List FilterClass
  failure : Option String

instance : CodecSource SampleSource where
  codec _ _ _ := none
  load source step :=
    match source.failure with
    | some reason => ⟨.error (.storage (.other reason)), source, []⟩
    | none => ⟨.ok (source.classes.find? fun c => c.id = step.id), source, []⟩

end FilteredChunks
