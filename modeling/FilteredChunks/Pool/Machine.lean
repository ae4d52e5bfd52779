import FilteredChunks.ChunkWrite
import FilteredChunks.FilterError
import FilteredChunks.Pool.Telemetry
import FilteredChunks.Queue.WorkQueue

/-!
# The steps of a worker pool

Callers submit chunks to a queue or shut the pool down; workers take chunks from the queue, apply a
function to each and send the outcome.  `callerStep` and `workerStep` are the single steps of both, as
small as the locks and counters of a pool make them: between any two steps of one participant others
may take theirs.  A step that is not possible is `none`.
-/

namespace FilteredChunks.Pool

/-- What applying the function to a chunk leaves. -/
structure Applied (σ : Type) where
  result : Except Fault ChunkWrite
  shared : σ
  metrics : List Metrics.Update

/-- What the workers of a pool do: the function, given worker, chunk and shared state, and the
telemetry. -/
structure Job (σ : Type) where
  apply : Nat → Chunk → σ → Applied σ
  telemetry : Telemetry

/-- How a chunk ended. -/
structure ChunkOutcome where
  index : Nat
  offset : ChunkOffset
  result : Except FilterError ChunkWrite

/-- What all participants share. -/
structure Core (σ : Type) where
  queue : WorkQueue Chunk
  accepting : Bool
  submitted : Nat
  completed : Nat
  /-- Chunks each worker has done. -/
  tasks : List Nat
  /-- What the workers sent, latest first. -/
  outcomes : List ChunkOutcome
  shared : σ
  metrics : Metrics.Store
  /-- The hooks called, latest first. -/
  hooks : List Hook

variable {σ : Type}

namespace Core

def record (core : Core σ) (update : Metrics.Update) : Core σ :=
  { core with metrics := core.metrics.apply update }

end Core

/-! ### Callers -/

/-- A request to a pool. -/
inductive Call
  | submit (chunk : Chunk)
  | shutdown

/-- How far a caller is with its request. -/
inductive CallPhase
  | idle
  /-- The pool accepts chunks. -/
  | admitted (chunk : Chunk)
  /-- The chunk counts as submitted. -/
  | counted (chunk : Chunk)
  /-- The queue was closed; the count is to be taken back. -/
  | refused (chunk : Chunk)
  /-- The pool has stopped accepting and is to be closed. -/
  | closing
  /-- The request is served; these metrics are to be recorded. -/
  | reporting (updates : List Metrics.Update)

/-- A caller with its further requests and the answers so far. -/
structure Caller where
  phase : CallPhase
  calls : List Call
  answers : List (Except FilterError Unit)

namespace Caller

def start (calls : List Call) : Caller := ⟨.idle, calls, []⟩

/-- The caller with an answer and nothing more to do for its request. -/
def answer (c : Caller) (result : Except FilterError Unit) : Caller :=
  { c with phase := .idle, answers := c.answers ++ [result] }

end Caller

/-- Takes up the next request: a chunk is refused unless the pool is accepting, and only the first
request to shut down closes the queue. -/
def beginCall (c : Caller) (core : Core σ) : Option (Caller × Core σ) :=
  match c.calls with
  | [] => none
  | .submit chunk :: calls =>
    let c := { c with calls := calls }
    if core.accepting then some ({ c with phase := .admitted chunk }, core)
    else some (c.answer (.error (.workerPool .shuttingDown)), core)
  | .shutdown :: calls =>
    let c := { c with calls := calls }
    if core.accepting then some ({ c with phase := .closing }, { core with accepting := false })
    else some (c.answer (.ok ()), core)

/-- One step of a caller. -/
def callerStep (c : Caller) (core : Core σ) : Option (Caller × Core σ) :=
  match c.phase with
  | .idle => beginCall c core
  | .admitted chunk =>
    some ({ c with phase := .counted chunk }, { core with submitted := core.submitted + 1 })
  | .counted chunk =>
    match core.queue.enqueue (.item chunk) with
    | (.rejected chunk, queue) => some ({ c with phase := .refused chunk }, { core with queue := queue })
    | (answer, queue) =>
      some ({ c with phase := .reporting (WorkQueue.enqueueMetrics answer queue) },
        { core with queue := queue })
  | .refused chunk =>
    some (c.answer (.error (.workerPool (.queueClosed chunk.index))),
      { core with submitted := core.submitted - 1 })
  | .closing =>
    let (answer, queue) := core.queue.enqueue .endOfStream
    some ({ c with phase := .reporting (WorkQueue.enqueueMetrics answer queue) },
      { core with queue := queue })
  | .reporting (update :: updates) =>
    some ({ c with phase := .reporting updates }, core.record update)
  | .reporting [] => some (c.answer (.ok ()), core)

/-! ### Workers -/

/-- One thing a worker has to do. -/
inductive Duty
  | tellDepth
  | tellStarted
  | apply
  | tellEnded (result : Except FilterError ChunkWrite)
  | countCompleted
  | countTask
  | send (result : Except FilterError ChunkWrite)
  | tellExited
  | record (update : Metrics.Update)

/-- A worker. -/
inductive Worker
  /-- Waits for a chunk. -/
  | waiting
  /-- Has a chunk, and these duties before it waits again. -/
  | busy (chunk : Chunk) (duties : List Duty)
  /-- Has seen the end of the stream, and these duties before it is gone. -/
  | leaving (duties : List Duty)
  | gone
  /-- A hook crashed. -/
  | dead (report : CrashReport)

namespace Worker

/-- The worker with other duties. -/
def withDuties (w : Worker) (duties : List Duty) : Worker :=
  match w with
  | busy chunk _ => busy chunk duties
  | leaving _ => leaving duties
  | w => w

end Worker

/-- Calls a hook: its updates become duties, unless it crashes. -/
def callHook (job : Job σ) (hook : Hook) (w : Worker) (duties : List Duty) (core : Core σ) :
    Worker × Core σ :=
  let core := { core with hooks := hook :: core.hooks }
  match job.telemetry.crash hook with
  | some report => (.dead report, core)
  | none => (w.withDuties ((job.telemetry.updates hook).map .record ++ duties), core)

/-- A crash of the function counts as a failure of its chunk. -/
def outcomeOf (chunk : Chunk) (result : Except Fault ChunkWrite) : Except FilterError ChunkWrite :=
  match result with
  | .ok write => .ok write
  | .error (.failure error) => .error error
  | .error .crash => .error (.workerPool (.taskCrashed chunk.index))

/-- Applies the function to a chunk. -/
def Core.apply (core : Core σ) (job : Job σ) (worker : Nat) (chunk : Chunk) :
    Except FilterError ChunkWrite × Core σ :=
  let ⟨queue, accepting, submitted, completed, tasks, outcomes, shared, metrics, hooks⟩ := core
  let applied := job.apply worker chunk shared
  (outcomeOf chunk applied.result,
    ⟨queue, accepting, submitted, completed, tasks, outcomes, applied.shared,
      metrics.applyAll applied.metrics, hooks⟩)

/-- A worker with a chunk does its next duty, `rest` being the others. -/
def busyStep (job : Job σ) (worker : Nat) (chunk : Chunk) (duty : Duty) (rest : List Duty)
    (core : Core σ) : Worker × Core σ :=
  let w : Worker := .busy chunk rest
  match duty with
  | .tellDepth => callHook job (.depth worker core.queue.length) w rest core
  | .tellStarted => callHook job (.started worker chunk.index) w rest core
  | .apply =>
    let (result, core) := core.apply job worker chunk
    (.busy chunk (.tellEnded result :: .countCompleted :: .countTask :: .send result :: rest), core)
  | .tellEnded (.ok _) => callHook job (.finished worker chunk.index) w rest core
  | .tellEnded (.error _) => callHook job (.failed worker chunk.index) w rest core
  | .countCompleted => (w, { core with completed := core.completed + 1 })
  | .countTask => (w, { core with tasks := core.tasks.modify worker (· + 1) })
  | .send result =>
    (w, { core with outcomes := ⟨chunk.index, chunk.offset, result⟩ :: core.outcomes })
  | .record update => (w, core.record update)
  | .tellExited => (w, core)

/-- A leaving worker does its next duty. -/
def leavingStep (job : Job σ) (worker : Nat) (duty : Duty) (rest : List Duty) (core : Core σ) :
    Worker × Core σ :=
  match duty with
  | .tellExited =>
    callHook job (.exited worker (core.tasks.getD worker 0)) (.leaving rest) rest core
  | .record update => (.leaving rest, core.record update)
  | _ => (.leaving rest, core)

/-- What a worker has to do for a chunk it has just taken. -/
def firstDuties : List Duty := [.tellDepth, .tellStarted, .apply]

/-- Whether a worker can take a step: one that waits needs a queue with something to take. -/
def Worker.isReady (queue : WorkQueue Chunk) : Worker → Bool
  | waiting => !queue.isEmpty || queue.closed
  | busy .. | leaving _ => true
  | gone | dead _ => false

/-- The next step of a worker that is ready; any other stays as it is. -/
def advance (job : Job σ) (worker : Nat) (w : Worker) (core : Core σ) : Worker × Core σ :=
  match w with
  | .waiting =>
    match core.queue.take? with
    | some (.item chunk, queue) => (.busy chunk firstDuties, { core with queue := queue })
    | some (.endOfStream, queue) => (.leaving [.tellExited], { core with queue := queue })
    | none => (w, core)
  | .busy _ [] => (.waiting, core)
  | .busy chunk (duty :: rest) => busyStep job worker chunk duty rest core
  | .leaving [] => (.gone, core)
  | .leaving (duty :: rest) => leavingStep job worker duty rest core
  | .gone | .dead _ => (w, core)

/-- One step of a worker. -/
def workerStep (job : Job σ) (worker : Nat) (w : Worker) (core : Core σ) :
    Option (Worker × Core σ) :=
  if w.isReady core.queue then some (advance job worker w core) else none

/-! ### All together -/

/-- A pool with its callers. -/
structure System (σ : Type) where
  core : Core σ
  callers : List Caller
  workers : List Worker

/-- Who takes a step. -/
inductive Actor
  | caller (index : Nat)
  | worker (index : Nat)
  deriving DecidableEq

/-- A pool in which nothing has happened yet; it has at least one worker. -/
def Core.start (workers : Nat) (shared : σ) (metrics : Metrics.Store) : Core σ where
  queue := .empty
  accepting := true
  submitted := 0
  completed := 0
  tasks := List.replicate (max workers 1) 0
  outcomes := []
  shared := shared
  metrics := metrics
  hooks := []

namespace System

def start (workers : Nat) (shared : σ) (metrics : Metrics.Store) (calls : List (List Call)) :
    System σ :=
  ⟨.start workers shared metrics, calls.map Caller.start, List.replicate (max workers 1) .waiting⟩

/-- One participant takes its next step, if it has one. -/
def step (job : Job σ) (s : System σ) : Actor → System σ
  | .caller index =>
    match (s.callers[index]?).bind fun c => callerStep c s.core with
    | some (c, core) => { s with core := core, callers := s.callers.set index c }
    | none => s
  | .worker index =>
    match (s.workers[index]?).bind fun w => workerStep job index w s.core with
    | some (w, core) => { s with core := core, workers := s.workers.set index w }
    | none => s

/-- The steps of a schedule. -/
def run (job : Job σ) (s : System σ) (schedule : List Actor) : System σ :=
  schedule.foldl (step job) s

end System

end FilteredChunks.Pool
