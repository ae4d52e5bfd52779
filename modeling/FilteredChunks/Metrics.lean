import Std.Data.ExtTreeMap

/-!
# Metrics

Operations describe what they count as a list of updates; a store of metrics applies them in order.
Counters and histograms stop at the largest 64-bit number, gauges at zero and at that number.
-/

namespace FilteredChunks.Metrics

/-- One change of a metric. -/
inductive Update
  /-- Adds to a counter. -/
  | count (name : String) (amount : Nat)
  /-- Records a sample in a histogram. -/
  | sample (name : String) (value : Nat)
  /-- Sets a gauge. -/
  | set (name : String) (value : Nat)
  /-- Adds to a gauge. -/
  | raise (name : String) (amount : Nat)
  /-- Takes from a gauge, down to zero. -/
  | lower (name : String) (amount : Nat)
  deriving DecidableEq

/-- The largest value a metric holds. -/
def largest : Nat := UInt64.size - 1

/-- The sum, but no more than the largest value. -/
def add (a b : Nat) : Nat := min (a + b) largest

/-- Summary of the samples of a histogram. -/
structure Histogram where
  count : Nat
  total : Nat
  smallest : Nat
  greatest : Nat
  deriving DecidableEq

namespace Histogram

def empty : Histogram := ⟨0, 0, 0, 0⟩

def record (h : Histogram) (value : Nat) : Histogram where
  count := add h.count 1
  total := add h.total value
  smallest := if h.count = 0 then value else min h.smallest value
  greatest := max h.greatest value

/-- The mean sample; zero if there is none. -/
def mean (h : Histogram) : Float :=
  if h.count = 0 then 0.0 else h.total.toUInt64.toFloat / h.count.toUInt64.toFloat

end Histogram

/-- All metrics by name. -/
structure Store where
  counters : Std.ExtTreeMap String Nat
  gauges : Std.ExtTreeMap String Nat
  histograms : Std.ExtTreeMap String Histogram

namespace Store

/-- No metric recorded yet. -/
def empty : Store := ⟨∅, ∅, ∅⟩

def apply (store : Store) : Update → Store
  | .count name amount =>
    { store with counters := store.counters.alter name fun v => some (add (v.getD 0) amount) }
  | .sample name value =>
    { store with histograms := store.histograms.alter name fun h => some ((h.getD .empty).record value) }
  | .set name value => { store with gauges := store.gauges.insert name value }
  | .raise name amount =>
    { store with gauges := store.gauges.alter name fun v => some (add (v.getD 0) amount) }
  | .lower name amount =>
    { store with gauges := store.gauges.alter name fun v => some (v.getD 0 - amount) }

/-- Applies updates in order. -/
def applyAll (store : Store) (updates : List Update) : Store := updates.foldl apply store

end Store

/-- Whole microseconds of a duration, no more than the largest value. -/
def microseconds (seconds nanoseconds : Nat) : Nat :=
  min ((seconds * 1000000000 + nanoseconds) / 1000) largest

/-! ### Names -/

def queueDepth : String := "h5filter.queue.depth"

def queueEnqueued : String := "h5filter.queue.enqueue.count"

def queueClosed : String := "h5filter.queue.close.count"

def stepsSkipped : String := "h5filter.pipeline.skipped.count"

def registered : String := "h5filter.registry.register.count"

def unregistered : String := "h5filter.registry.unregister.count"

def registrySize : String := "h5filter.registry.size"

def pluginsLoaded : String := "h5filter.plugin.load.count"

def pluginsMissed : String := "h5filter.plugin.load.miss.count"

def pluginLatency : String := "h5filter.plugin.load.latency_us"

def tasks : String := "h5filter.worker.task.count"

def tasksStarted : String := "h5filter.worker.task.start.count"

def tasksFinished : String := "h5filter.worker.task.finish.count"

def tasksFailed : String := "h5filter.worker.task.fail.count"

def taskLatency : String := "h5filter.worker.task.latency_us"

def activeWorkers : String := "h5filter.worker.active.count"

def workerExits : String := "h5filter.worker.exit.count"

end FilteredChunks.Metrics
