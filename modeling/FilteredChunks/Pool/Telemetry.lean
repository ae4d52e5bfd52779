import FilteredChunks.Metrics

/-!
# What workers tell

A worker calls a hook when it looks at the depth of the queue, starts a chunk, ends it, and leaves.
What a hook does is up to the telemetry of the pool: it updates metrics, and it may crash, which ends
the worker.
-/

namespace FilteredChunks.Pool

/-- A call of a hook, by the worker that makes it. -/
inductive Hook
  | depth (worker depth : Nat)
  | started (worker chunk : Nat)
  | finished (worker chunk : Nat)
  | failed (worker chunk : Nat)
  | exited (worker tasks : Nat)
  deriving DecidableEq

namespace Hook

/-- The worker that makes the call. -/
def worker : Hook → Nat
  | depth worker _ | started worker _ | finished worker _ | failed worker _ | exited worker _ => worker

/-- What the call tells: a depth, the number of a chunk, or a number of tasks. -/
def number : Hook → Nat
  | depth _ n | started _ n | finished _ n | failed _ n | exited _ n => n

/-- What the hook is called. -/
def label : Hook → String
  | depth .. => "depth"
  | started .. => "started"
  | finished .. => "finished"
  | failed .. => "failed"
  | exited .. => "exit"

end Hook

/-- What a crashed hook leaves to tell. -/
inductive CrashReport
  | text (detail : String)
  | nothing
  deriving DecidableEq

/-- The wording of a report. -/
def CrashReport.detail : CrashReport → String
  | text detail => detail
  | nothing => "unknown panic payload"

/-- What hooks do: the metrics they update, one by one, and whether they crash instead. -/
structure Telemetry where
  updates : Hook → List Metrics.Update
  crash : Hook → Option CrashReport

namespace Telemetry

/-- The updates of a hook when nothing else is asked for; `latency` is the time a chunk took. -/
def standardUpdates (latency : Nat) : Hook → List Metrics.Update
  | .depth _ depth => [.set Metrics.queueDepth depth]
  | .started .. => [.count Metrics.tasksStarted 1, .raise Metrics.activeWorkers 1]
  | .finished .. =>
    [.count Metrics.tasksFinished 1, .count Metrics.tasks 1, .sample Metrics.taskLatency latency,
      .lower Metrics.activeWorkers 1]
  | .failed .. =>
    [.count Metrics.tasksFailed 1, .count Metrics.tasks 1, .sample Metrics.taskLatency latency,
      .lower Metrics.activeWorkers 1]
  | .exited .. => [.count Metrics.workerExits 1]

/-- Updates metrics and never crashes. -/
def standard : Telemetry := ⟨standardUpdates 0, fun _ => none⟩

end Telemetry

end FilteredChunks.Pool
