import FilteredChunks.CodecTable
import FilteredChunks.Engine
import FilteredChunks.Pool
import FilteredChunks.Store.Basic

/-!
# Writing chunks

A writer filters chunks with a codec table resolved for writing and hands the bytes to a store.
`apply` does so for one chunk, `writeChunks` for many on a pool of workers.
-/

namespace FilteredChunks

/-- What is done with every chunk of a dataset. -/
structure ChunkWriter where
  pipeline : FilterPipeline
  codecs : CodecTable
  /-- Steps left out for every chunk. -/
  exclude : FilterMask
  /-- Asked about a mandatory step that fails. -/
  onFailure : Option (FilterId → Bytes → Engine.Verdict)

/-- What applying a writer to one chunk leaves. -/
structure Writing (σ : Type) where
  result : Except Fault ChunkWrite
  store : σ
  events : List Engine.Event
  metrics : List Metrics.Update

/-- What the workers of a writer share. -/
structure WriterState (σ : Type) where
  store : σ
  /-- The events of each chunk, those of the latest chunk first. -/
  runs : List (List Engine.Event)

/-- What writing many chunks leaves. -/
structure WriteRun (σ : Type) where
  result : Except Fault WriteSummary
  store : σ
  events : List Engine.Event
  metrics : Metrics.Store

namespace ChunkWriter

/-- A writer with a table made before.  The table must be for writing and as long as the pipeline. -/
def ofTable (pipeline : FilterPipeline) (codecs : CodecTable) : Except FilterError ChunkWriter :=
  if codecs.mode ≠ .write then .error (.invalidArgument .tableNotForWriting)
  else if codecs.classes.length ≠ pipeline.length then .error (.invalidArgument .tableLength)
  else .ok ⟨pipeline, codecs, .empty, none⟩

/-- A writer with a table resolved now. -/
def prepare [Compression] (pipeline : FilterPipeline) (dir : String)
    (tree : Plugin.LibraryTree) (r : FilterRegistry) : Except FilterError ChunkWriter :=
  match CodecTable.resolve pipeline .write dir tree r with
  | .error error => .error error
  | .ok codecs => ofTable pipeline codecs

/-- The settings of every run. -/
def options (w : ChunkWriter) : Engine.Options :=
  { Engine.Options.write with exclude := w.exclude, onFailure := w.onFailure }

variable {σ : Type} [ChunkStore σ]

/-- Filters one chunk and stores it. -/
def apply (w : ChunkWriter) (chunk : Chunk) (store : σ) : Writing σ :=
  let run := Engine.run w.pipeline w.options w.codecs (.ofBytes chunk.data)
  let left (result : Except Fault ChunkWrite) (store : σ) : Writing σ :=
    ⟨result, store, run.events, run.metrics⟩
  match run.result with
  | .error fault => left (.error (fault.within (.filteringChunk chunk.index))) store
  | .ok outcome =>
    match run.buffer.valid? with
    | none => left (.error .crash) store
    | some bytes =>
      match ChunkStore.refusal? store chunk.offset outcome.mask bytes with
      | some error => left (.error (.failure (error.within (.storingChunk chunk.index)))) store
      | none =>
        left (.ok ⟨chunk.index, chunk.offset, chunk.data.length, outcome.nbytes, outcome.mask⟩)
          (ChunkStore.put store chunk.offset outcome.mask bytes)

/-- The job of a pool that applies a writer. -/
def job (w : ChunkWriter) : Pool.Job (WriterState σ) where
  apply := fun _ chunk ⟨store, runs⟩ =>
    let writing := w.apply chunk store
    ⟨writing.result, ⟨writing.store, writing.events :: runs⟩, writing.metrics⟩
  telemetry := .standard

/-- Submits chunks in order, up to the first that is refused. -/
def submitAll {τ : Type} (pool : Pool τ) : List Chunk → Except FilterError Unit × Pool τ
  | [] => (.ok (), pool)
  | chunk :: chunks =>
    match pool.submit chunk with
    | (.ok (), pool) => submitAll pool chunks
    | (.error error, pool) => (.error error, pool)

/-- Writes chunks on a pool of workers.  A pool that cannot be so large is a crash. -/
def writeChunks (w : ChunkWriter) (workers : Nat) (chunks : List Chunk) (store : σ)
    (metrics : Metrics.Store) : WriteRun σ :=
  if Pool.maxWorkers < workers then ⟨.error .crash, store, [], metrics⟩
  else
    let (submitted, pool) := submitAll (.start w.job workers ⟨store, []⟩ metrics) chunks
    let (summary, pool) := pool.close
    { result := (match submitted with
        | .ok () => summary
        | .error error => .error error).mapError .failure
      store := pool.core.shared.store
      events := pool.core.shared.runs.reverse.flatten
      metrics := pool.core.metrics }

end ChunkWriter

end FilteredChunks
