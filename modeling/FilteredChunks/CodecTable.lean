import FilteredChunks.FilterRegistry

/-!
# Codec tables

The classes of all steps of a pipeline, resolved once for writing or for reading.  A well-known plugin
comes from a directory, a built-in filter from the library itself, any other filter from a registry.
-/

namespace FilteredChunks

/-- What the codecs are to do. -/
inductive OpenMode
  | read
  | write
  deriving DecidableEq

/-- One class per step, in the order of the steps. -/
structure CodecTable where
  mode : OpenMode
  classes : List FilterClass

namespace CodecTable

/-- The class of one step. -/
def resolveStep [Compression] (step : FilterStep) (dir : String) (tree : Plugin.LibraryTree)
    (r : FilterRegistry) : Except FilterError FilterClass :=
  match Plugin.knownPlugin? step.id with
  | some plugin => plugin.load dir tree
  | none =>
    match Builtin.find? step.id with
    | some c => .ok c
    | none =>
      match r.get? step.id with
      | some c => .ok c
      | none => .error (.unknownFilter step.id)

/-- A class must be able to do what the mode is for. -/
def checkMode (mode : OpenMode) (c : FilterClass) : Except FilterError FilterClass :=
  match mode with
  | .write => if c.encoder then .ok c else .error (.noEncoder c.id)
  | .read => if c.decoder then .ok c else .error (.noDecoder c.id)

/-- The classes of numbered steps, up to the first failure. -/
def resolveSteps [Compression] (mode : OpenMode) (dir : String) (tree : Plugin.LibraryTree)
    (r : FilterRegistry) : List (FilterStep × Nat) → Except FilterError (List FilterClass)
  | [] => .ok []
  | (step, index) :: rest =>
    match resolveStep step dir tree r with
    | .error error => .error (error.within (.resolvingStep index))
    | .ok c =>
      match checkMode mode c with
      | .error error => .error error
      | .ok c => (resolveSteps mode dir tree r rest).map (c :: ·)

/-- The table of a pipeline, or the failure of the first step that has one. -/
def resolve [Compression] (p : FilterPipeline) (mode : OpenMode) (dir : String)
    (tree : Plugin.LibraryTree) (r : FilterRegistry) : Except FilterError CodecTable :=
  (resolveSteps mode dir tree r p.steps.zipIdx).map (⟨mode, ·⟩)

/-- The class at a position. -/
def get? (t : CodecTable) (index : Nat) : Option FilterClass := t.classes[index]?

/-- A table knows the class of a step if the class at its position has its number; it loads none. -/
instance : CodecSource CodecTable where
  codec t index step := (t.get? index).filter fun c => c.id == step.id
  load t _ := ⟨.ok none, t, []⟩

end CodecTable

end FilteredChunks
