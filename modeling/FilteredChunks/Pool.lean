import FilteredChunks.Bytes
import FilteredChunks.Pool.Drain

/-!
# Worker pools

A pool is started with a job and a number of workers.  Chunks are submitted to it; closing it stops
the submissions, lets the workers drain the queue and sums up the outcomes.  The pool is run without
interleaving: every request is served at once, and the workers drain the queue one after the other.
-/

namespace FilteredChunks

/-- A chunk that could not be filtered or stored. -/
structure ChunkFailure where
  index : Nat
  offset : ChunkOffset
  error : FilterError

/-- What became of the chunks of a pool, written ones and failures each in the order of the chunks'
numbers. -/
structure WriteSummary where
  written : List ChunkWrite
  failures : List ChunkFailure
  submitted : Nat
  completed : Nat
  /-- Chunks each worker has done. -/
  tasks : List Nat

namespace WriteSummary

def isSuccess (s : WriteSummary) : Bool := s.failures.isEmpty

def chunkCount (s : WriteSummary) : Nat := s.written.length + s.failures.length

def rawBytes (s : WriteSummary) : Nat := total (·.rawBytes) s.written

def storedBytes (s : WriteSummary) : Nat := total (·.storedBytes) s.written

/-- Chunks submitted but not done. -/
def pending (s : WriteSummary) : Nat := s.submitted - s.completed

/-- The writes, or the failure of the first chunk that failed. -/
def result (s : WriteSummary) : Except FilterError (List ChunkWrite) :=
  match s.failures with
  | [] => .ok s.written
  | failure :: _ => .error (failure.error.within (.chunkAt failure.index failure.offset))

end WriteSummary

/-- A running pool. -/
structure Pool (σ : Type) where
  job : Pool.Job σ
  core : Pool.Core σ
  workers : List Pool.Worker

namespace Pool

variable {σ : Type}

/-- Most workers of a pool: one buffer must have room for the handles of all, of 24 bytes each. -/
def maxWorkers : Nat := Bytes.maxLength / 24

/-- There can be the buffers of a pool that is given some chunks. -/
structure HasRoom (workers chunks : Nat) : Prop where
  /-- Closing tells 72 bytes of each worker, more than its handle has. -/
  reports : 72 * workers ≤ Bytes.maxLength
  /-- A chunk in the queue has 64 bytes, more than what is told of it, and a full queue is moved to one
  twice as long. -/
  queue : 128 * chunks ≤ Bytes.maxLength

theorem HasRoom.le_maxWorkers {workers chunks : Nat} (h : HasRoom workers chunks) :
    workers ≤ maxWorkers := by
  have := h.reports
  unfold maxWorkers
  omega

/-- A pool of at least one worker. -/
def start (job : Job σ) (workers : Nat) (shared : σ) (metrics : Metrics.Store) : Pool σ :=
  ⟨job, .start workers shared metrics, List.replicate (max workers 1) .waiting⟩

/-- Serves a request. -/
def request (pool : Pool σ) (call : Call) : Except FilterError Unit × Pool σ :=
  let (answer, core) := serve call pool.core
  (answer, { pool with core := core })

/-- Queues a chunk for the workers. -/
def submit (pool : Pool σ) (chunk : Chunk) : Except FilterError Unit × Pool σ :=
  pool.request (.submit chunk)

/-- Stops the submissions; the workers leave once the queue is empty. -/
def shutdown (pool : Pool σ) : Pool σ := (pool.request .shutdown).2

/-- Chunks submitted but not done. -/
def Core.pending (core : Core σ) : Nat := core.submitted - core.completed

/-- The workers do what they can. -/
def settle (pool : Pool σ) : Pool σ :=
  let (workers, core) := drainWorkers pool.job 0 pool.workers pool.core
  { pool with core := core, workers := workers }

/-- What the first worker that died left to tell. -/
def crashReport? (workers : List Worker) : Option CrashReport :=
  workers.findSome? fun
    | .dead report => some report
    | _ => none

/-- The writes among the outcomes. -/
def writes (outcomes : List ChunkOutcome) : List ChunkWrite :=
  outcomes.filterMap fun o =>
    match o.result with
    | .ok write => some write
    | .error _ => none

/-- The failures among the outcomes. -/
def failures (outcomes : List ChunkOutcome) : List ChunkFailure :=
  outcomes.filterMap fun o =>
    match o.result with
    | .ok _ => none
    | .error error => some ⟨o.index, o.offset, error⟩

/-- Sums up a pool whose workers are done: no worker may have died, and there must be an outcome of
every chunk submitted. -/
def summarise (core : Core σ) (workers : List Worker) : Except FilterError WriteSummary :=
  match crashReport? workers with
  | some report => .error (.workerPool (.workerCrashed report.detail))
  | none =>
    let outcomes := core.outcomes.reverse
    let written := writes outcomes
    let failed := failures outcomes
    let collected := written.length + failed.length
    if collected ≠ core.submitted then
      .error (.workerPool (.unprocessed (core.submitted - min collected core.submitted)
        core.submitted))
    else
      .ok {
        written := written.mergeSort fun a b => decide (a.index ≤ b.index)
        failures := failed.mergeSort fun a b => decide (a.index ≤ b.index)
        submitted := core.submitted
        completed := core.completed
        tasks := core.tasks }

/-- Shuts down, lets the workers finish and sums up. -/
def close (pool : Pool σ) : Except FilterError WriteSummary × Pool σ :=
  let pool := pool.shutdown.settle
  (summarise pool.core pool.workers, pool)

end Pool

end FilteredChunks
