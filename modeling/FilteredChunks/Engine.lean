import FilteredChunks.ChunkBuffer
import FilteredChunks.CodecSource
import FilteredChunks.FilterMask
import FilteredChunks.FilterPipeline

/-!
# Running a pipeline over a chunk

A run takes the steps first to last on write and last to first on read, leaving out those whose bit is
set in the mask.  A step that did not apply and may not have to is marked in the mask; any other
failure ends the run.  What a run asked of its source, of the codecs and of the failure callback is
listed in its events.

`encode` and `decode` run a pipeline over bytes; `Run.stored` and `Run.restored` are their answers.
-/

namespace FilteredChunks.Engine

inductive Direction
  | write
  | read
  deriving DecidableEq

/-- The verdict of a failure callback. -/
inductive Verdict
  | fail
  /-- The step counts as not applied and the run goes on. -/
  | continue
  deriving DecidableEq

/-- Settings of one run. -/
structure Options where
  direction : Direction
  /-- Steps left out; they stay marked in the resulting mask. -/
  exclude : FilterMask
  /-- Whether checksums are verified on read. -/
  checks : Bool
  /-- Asked about a failed step; it sees the step's filter and the bytes. -/
  onFailure : Option (FilterId → Bytes → Verdict)

namespace Options

/-- Writing with nothing excluded and no callback. -/
def write : Options := ⟨.write, .empty, true, none⟩

/-- Reading with nothing excluded, verifying checksums and no callback. -/
def read : Options := ⟨.read, .empty, true, none⟩

/-- The flags a codec is called with in addition to those of its step. -/
def callFlags (options : Options) : FilterFlags :=
  match options.direction with
  | .write => ⟨0⟩
  | .read => if options.checks then .reverse else .reverse ||| .skipChecks

end Options

/-- Something a run asked for. -/
inductive Event
  /-- The class of a step was looked up. -/
  | lookup (index : Nat) (id : FilterId)
  /-- A class that was not known was to be loaded. -/
  | load (id : FilterId)
  /-- A codec was called on a buffer of `size` bytes. -/
  | call (origin : Origin) (id : FilterId) (flags : FilterFlags) (words : List UInt32)
      (nbytes size : Nat)
  /-- The failure callback was asked and saw `bytes`. -/
  | callback (id : FilterId) (bytes : Bytes)
  deriving DecidableEq

/-- How far a run has come. -/
structure Progress (σ : Type) where
  buffer : ChunkBuffer
  mask : FilterMask
  source : σ
  events : List Event
  metrics : List Metrics.Update

/-- The number of valid bytes and the mask after a run. -/
structure Outcome where
  nbytes : Nat
  mask : FilterMask
  deriving DecidableEq

/-- A finished run. -/
structure Run (σ : Type) where
  result : Except Fault Outcome
  buffer : ChunkBuffer
  source : σ
  events : List Event
  metrics : List Metrics.Update

variable {σ : Type}

namespace Progress

/-- Lists one more event. -/
def note (p : Progress σ) (event : Event) : Progress σ := { p with events := p.events ++ [event] }

/-- Marks a step as not applied. -/
def skip (p : Progress σ) (index : Nat) : Progress σ :=
  { p with mask := p.mask.set index, metrics := p.metrics ++ [.count Metrics.stepsSkipped 1] }

/-- Takes over what a codec left, with `nbytes` valid bytes. -/
def leave (p : Progress σ) (data : Bytes) (nbytes : Nat) : Progress σ :=
  { p with buffer := ⟨data, nbytes⟩ }

/-- Notes the call of a codec on the buffer. -/
def noteCall (p : Progress σ) (c : FilterClass) (flags : FilterFlags) (words : List UInt32) :
    Progress σ :=
  p.note (.call c.origin c.id flags words p.buffer.nbytes p.buffer.size)

end Progress

/-- The answer of a step or a run and how far it came. -/
abbrev Stage (σ α : Type) := Except Fault α × Progress σ

/-- Asks the callback about a step that failed, showing it `seen`.  If the run goes on, every byte of
the buffer counts as valid and the step as not applied. -/
def consult (options : Options) (index : Nat) (id : FilterId) (seen : Bytes) (fault : FilterError)
    (p : Progress σ) : Stage σ Unit :=
  match options.onFailure with
  | none => (.error (.failure fault), p)
  | some callback =>
    let p := p.note (.callback id seen)
    match callback id seen with
    | .fail => (.error (.failure fault), p)
    | .continue => (.ok (), (p.leave p.buffer.data p.buffer.size).skip index)

/-- What happens when a step's codec fails on write: an optional step is skipped, of a mandatory one
the callback sees the valid bytes, which a shrunken buffer may not have. -/
def failedWrite (options : Options) (index : Nat) (step : FilterStep) (p : Progress σ) :
    Stage σ Unit :=
  if step.isOptional then (.ok (), p.skip index)
  else
    let fault := .writeFailed step.id .returnedFailure
    match options.onFailure, p.buffer.valid? with
    | some _, none => (.error .crash, p)
    | _, valid => consult options index step.id (valid.getD []) fault p

/-- What happens when a step's codec fails on read: the callback sees the whole buffer. -/
def failedRead (options : Options) (index : Nat) (step : FilterStep) (p : Progress σ) :
    Stage σ Unit :=
  consult options index step.id p.buffer.data (.readFailed step.id .returnedFailure) p

/-- Calls the codec of a step and takes over its answer.  Client words that cannot be read are a crash
before the call. -/
def callCodec (options : Options) (index : Nat) (step : FilterStep) (c : FilterClass)
    (p : Progress σ) : Stage σ Unit :=
  match step.words? with
  | none => (.error .crash, p)
  | some words =>
    let flags := step.flags ||| options.callFlags
    let called := p.noteCall c flags words
    match c.codec.transform flags words p.buffer.nbytes p.buffer.data with
    | .crashed => (.error .crash, called)
    | .produced (n + 1) data => (.ok (), called.leave data (n + 1))
    | .produced 0 data =>
      let failed := called.leave data p.buffer.nbytes
      match options.direction with
      | .write => failedWrite options index step failed
      | .read => failedRead options index step failed

variable [CodecSource σ]

/-- What happens when the class of a step is not known: on write an optional step is skipped, on read
the source may load the class. -/
def missingCodec (options : Options) (index : Nat) (step : FilterStep) (p : Progress σ) :
    Stage σ Unit :=
  match options.direction with
  | .write =>
    if step.isOptional then (.ok (), p.skip index)
    else (.error (.failure (.writeFailed step.id .notRegistered)), p)
  | .read =>
    let loading := CodecSource.load p.source step
    let p := p.note (.load step.id)
    let p := { p with source := loading.source, metrics := p.metrics ++ loading.metrics }
    match loading.result with
    | .error error => (.error (.failure error), p)
    | .ok none => (.error (.failure (.readFailed step.id (.notRegistered step.name))), p)
    | .ok (some c) => callCodec options index step c p

/-- Runs one step unless it is masked. -/
def runStep (options : Options) (index : Nat) (step : FilterStep) (p : Progress σ) : Stage σ Unit :=
  if p.mask.isSet index then (.ok (), p)
  else
    let found := CodecSource.codec p.source index step
    let p := p.note (.lookup index step.id)
    match found with
    | some c => callCodec options index step c p
    | none => missingCodec options index step p

/-- Runs steps in the given order until one of them ends the run. -/
def runSteps (options : Options) : List (FilterStep × Nat) → Progress σ → Stage σ Unit
  | [], p => (.ok (), p)
  | (step, index) :: rest, p =>
    match runStep options index step p with
    | (.ok (), p) => runSteps options rest p
    | (.error fault, p) => (.error fault, p)

/-- The numbered steps of a pipeline in the order of a direction. -/
def ordered (direction : Direction) (steps : List FilterStep) : List (FilterStep × Nat) :=
  match direction with
  | .write => steps.zipIdx
  | .read => steps.zipIdx.reverse

/-- What a run of non-empty steps over a non-empty buffer counts when it ends.  A crash leaves no
time to count. -/
def runMetrics (direction : Direction) (bytesIn bytesOut : Nat) (result : Except Fault Unit) :
    List Metrics.Update :=
  let base := match direction with
    | .write => "h5filter.pipeline.write"
    | .read => "h5filter.pipeline.read"
  let ran : List Metrics.Update := [.count (base ++ ".count") 1, .sample (base ++ ".latency_us") 0]
  match result with
  | .ok () => ran ++ [.count (base ++ ".bytes_in") bytesIn, .count (base ++ ".bytes_out") bytesOut]
  | .error (.failure _) => ran ++ [.count (base ++ ".error.count") 1]
  | .error .crash => []

/-- Runs a pipeline over a buffer.  Without steps there is nothing to do; without bytes a run cannot
start. -/
def run (pipeline : FilterPipeline) (options : Options) (source : σ) (buffer : ChunkBuffer) :
    Run σ :=
  if pipeline.isEmpty then ⟨.ok ⟨buffer.nbytes, options.exclude⟩, buffer, source, [], []⟩
  else if buffer.nbytes = 0 ∨ buffer.data = [] then
    ⟨.error (.failure (.invalidArgument .emptyBuffer)), buffer, source, [], []⟩
  else
    let (result, p) := runSteps options (ordered options.direction pipeline.steps)
      ⟨buffer, options.exclude, source, [], []⟩
    { result := result.map fun () => ⟨p.buffer.nbytes, p.mask⟩
      buffer := p.buffer
      source := p.source
      events := p.events
      metrics := p.metrics ++ runMetrics options.direction buffer.nbytes p.buffer.nbytes result }

/-- Filters bytes forward. -/
def encode (pipeline : FilterPipeline) (source : σ) (data : Bytes) : Run σ :=
  run pipeline .write source (.ofBytes data)

/-- Undoes the steps that a mask does not mark. -/
def decode (pipeline : FilterPipeline) (source : σ) (stored : Bytes) (mask : FilterMask) : Run σ :=
  run pipeline { Options.read with exclude := mask } source (.ofBytes stored)

namespace Run

/-- The bytes to store and their mask. -/
def stored {σ : Type} (r : Run σ) : Except Fault (Bytes × FilterMask) :=
  r.result.map fun outcome => (r.buffer.toBytes, outcome.mask)

/-- The bytes read back. -/
def restored {σ : Type} (r : Run σ) : Except Fault Bytes :=
  r.result.map fun _ => r.buffer.toBytes

end Run

/-! ### Lemmas -/

/-- Steps run one after the other: a run of two lists is a run of the second after one of the first. -/
theorem runSteps_append (options : Options) (xs ys : List (FilterStep × Nat)) (p : Progress σ) :
    runSteps options (xs ++ ys) p =
      match runSteps options xs p with
      | (.ok (), p) => runSteps options ys p
      | (.error fault, p) => (.error fault, p) := by
  induction xs generalizing p with
  | nil => rfl
  | cons x xs ih =>
    obtain ⟨step, index⟩ := x
    simp only [List.cons_append, runSteps]
    split
    · exact ih _
    · rfl

end FilteredChunks.Engine
