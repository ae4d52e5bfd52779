import FilteredChunks.Proofs.Metrics
import FilteredChunks.Proofs.Pool.Summary

/-!
# The books of a pool

Callers and workers update the metrics one by one, and others take their steps in between.
`recorded` are the updates that the steps of a schedule have made.  What a participant has yet to
record is settled when it takes a chunk or enters one into the queue: `Duty.owes`, `Worker.owes` and
`Caller.owes` say how much that is, in any measure of updates, and `Happening.brings` how much comes to
be owed by what happens.

`Ledger` is the balance: what is recorded and what is owed make up what was brought.  Each step keeps it
(`Ledger.step`), so it holds at every moment (`Ledger.run`).
-/

namespace FilteredChunks.Pool

open Metrics (Update)

variable {σ : Type}

/-- The telemetry of a pool when nothing else is asked for; `latency` is the time that a chunk took, by
the hook that tells of its end. -/
def Telemetry.timed (latency : Hook → Nat) : Telemetry :=
  ⟨fun hook => standardUpdates (latency hook) hook, fun _ => none⟩

example : Telemetry.standard = .timed fun _ => 0 := rfl

theorem Telemetry.quiet_timed (latency : Hook → Nat) : (Telemetry.timed latency).Quiet := fun _ => rfl

/-! ### Measures -/

/-- The metrics that a pool keeps books of. -/
def bookNames : List String :=
  [Metrics.tasksStarted, Metrics.activeWorkers, Metrics.tasks, Metrics.taskLatency,
    Metrics.tasksFinished, Metrics.tasksFailed, Metrics.workerExits, Metrics.queueEnqueued,
    Metrics.queueClosed]

/-- A measure of the updates in the books.  How long a chunk took makes no difference to it. -/
structure Booked (measure : Update → Nat) : Prop where
  foreign : ∀ update : Update, update.name ∉ bookNames → measure update = 0
  timeless : ∀ value : Nat,
    measure (.sample Metrics.taskLatency value) = measure (.sample Metrics.taskLatency 0)

theorem Booked.depth {measure : Update → Nat} (h : Booked measure) (depth : Nat) :
    measure (.set Metrics.queueDepth depth) = 0 := by
  refine h.foreign _ ?_
  show Metrics.queueDepth ∉ bookNames
  decide

/-- The function leaves the books of the pool alone. -/
def LeavesBooks (apply : Nat → Chunk → σ → Applied σ) : Prop :=
  ∀ worker chunk shared, ∀ update ∈ (apply worker chunk shared).metrics, update.name ∉ bookNames

section Owing

variable (measure : Update → Nat)

/-- What telling of the start of a chunk records. -/
def startCost : Nat :=
  measure (.count Metrics.tasksStarted 1) + measure (.raise Metrics.activeWorkers 1)

/-- What telling of the end of a chunk records, whichever it is. -/
def endCost : Nat :=
  measure (.count Metrics.tasks 1) + measure (.sample Metrics.taskLatency 0) +
    measure (.lower Metrics.activeWorkers 1)

/-- What telling of the outcome of a chunk records besides. -/
def resultCost : Except FilterError ChunkWrite → Nat
  | .ok _ => measure (.count Metrics.tasksFinished 1)
  | .error _ => measure (.count Metrics.tasksFailed 1)

/-- What telling of the exit of a worker records. -/
def exitCost : Nat := measure (.count Metrics.workerExits 1)

/-- What a worker with a chunk has yet to record for a duty.  Which outcome applying the function will
give it to tell is open. -/
def Duty.owes : Duty → Nat
  | tellStarted => startCost measure
  | apply => endCost measure
  | tellEnded result => resultCost measure result + endCost measure
  | record update => measure update
  | _ => 0

/-- What a leaving worker has yet to record for a duty. -/
def Duty.owesLast : Duty → Nat
  | tellExited => exitCost measure
  | record update => measure update
  | _ => 0

/-- What a worker has yet to record, if it is given no more chunks. -/
def Worker.owes : Worker → Nat
  | waiting => exitCost measure
  | busy _ duties => total (Duty.owes measure) duties + exitCost measure
  | leaving duties => total (Duty.owesLast measure) duties
  | _ => 0

/-- What a caller has yet to record for what it has put into the queue. -/
def Caller.owes (c : Caller) : Nat :=
  match c.phase with
  | .reporting updates => total measure updates
  | _ => 0

/-- What is to be recorded because of what happens. -/
def Happening.brings : Happening → Nat
  | entered _ => measure (.count Metrics.queueEnqueued 1)
  | ended => measure (.count Metrics.queueClosed 1)
  | taken _ => startCost measure + endCost measure
  | applied _ result => resultCost measure result

/-- What a history brings, by what has happened in it. -/
theorem total_brings (h : List Happening) :
    total (Happening.brings measure) h =
      (taken h).length * (startCost measure + endCost measure) +
        (writes ((applications h).map outcomeAt)).length * measure (.count Metrics.tasksFinished 1) +
        (failures ((applications h).map outcomeAt)).length * measure (.count Metrics.tasksFailed 1) +
        (entered h).length * measure (.count Metrics.queueEnqueued 1) +
        ends h * measure (.count Metrics.queueClosed 1) := by
  induction h with
  | nil => simp [taken, writes, failures, ends]
  | cons e h ih =>
    rw [total_cons, ih]
    cases e with
    | applied chunk result =>
      cases result with
      | ok write | error error =>
        simp only [Happening.brings, resultCost, taken, applications, entered, ends, writes, failures,
          outcomeAt, List.filterMap_map, Function.comp_apply, List.filterMap_cons_none,
          List.filterMap_cons_some, Option.some.injEq, List.map_cons, List.length_cons, Nat.succ_mul,
          List.countP_cons_of_neg, Bool.false_eq_true, not_false_eq_true]
        omega
    | taken chunk | entered chunk =>
      simp only [Happening.brings, taken, applications, entered, ends, List.filterMap_cons_none,
        List.filterMap_cons_some, Option.some.injEq, List.length_cons, Nat.succ_mul,
        List.countP_cons_of_neg, Bool.false_eq_true, not_false_eq_true]
      omega
    | ended =>
      simp only [Happening.brings, taken, applications, entered, ends, List.filterMap_cons_none,
        List.countP_cons_of_pos, Nat.succ_mul]
      omega

end Owing

/-! ### What is recorded -/

/-- The updates that the next step of a caller makes. -/
def callerUpdates (c : Caller) : List Update :=
  match c.phase with
  | .reporting (update :: _) => [update]
  | _ => []

/-- The updates that the next step of a worker makes. -/
def workerUpdates (job : Job σ) (worker : Nat) (w : Worker) (core : Core σ) : List Update :=
  match w with
  | .busy _ (.record update :: _) | .leaving (.record update :: _) => [update]
  | .busy chunk (.apply :: _) => (job.apply worker chunk core.shared).metrics
  | _ => []

namespace System

/-- The updates that a step of a pool makes. -/
def updates (job : Job σ) (s : System σ) : Actor → List Update
  | .caller index => (s.callers[index]?).elim [] callerUpdates
  | .worker index => (s.workers[index]?).elim [] fun w => workerUpdates job index w s.core

/-- The updates that the steps of a schedule make, in their order. -/
def recorded (job : Job σ) (s : System σ) : List Actor → List Update
  | [] => []
  | actor :: rest => s.updates job actor ++ (s.step job actor).recorded job rest

end System

/-- A step makes these updates, `e` being what happens in it, and what is recorded and what is owed
after it is what was owed before and what is brought. -/
structure KeepsBooks (core core' : Core σ) (updates : List Update) (e : List Happening)
    (owed owed' : (Update → Nat) → Nat) : Prop where
  metrics : core'.metrics = core.metrics.applyAll updates
  balance : ∀ measure, Booked measure →
    total measure updates + owed' measure = owed measure + total (Happening.brings measure) e

theorem KeepsBooks.idle {core core' : Core σ} {owed owed' : (Update → Nat) → Nat}
    (hmetrics : core'.metrics = core.metrics)
    (howed : ∀ measure, Booked measure → owed' measure = owed measure) :
    KeepsBooks core core' [] [] owed owed' where
  metrics := hmetrics
  balance measure hm := by rw [total_nil, Nat.zero_add, howed measure hm, total_nil, Nat.add_zero]

/-! ### A step of a caller -/

theorem callerStep_books {c c' : Caller} {core core' : Core σ}
    (h : callerStep c core = some (c', core')) :
    KeepsBooks core core' (callerUpdates c) (callerHappening c core) (fun measure => c.owes measure)
      fun measure => c'.owes measure := by
  obtain ⟨phase, calls, answers⟩ := c
  cases phase with
  | idle =>
    simp only [callerStep, beginCall] at h
    split at h
    · cases h
    all_goals
      split at h <;> cases h <;> exact .idle rfl fun _ _ => rfl
  | admitted chunk =>
    cases h
    exact .idle rfl fun _ _ => rfl
  | counted chunk =>
    cases hc : core.queue.closed with
    | true =>
      simp only [callerStep, WorkQueue.enqueue, hc, if_true, Option.some.injEq, Prod.mk.injEq] at h
      obtain ⟨rfl, rfl⟩ := h
      simp only [callerHappening, hc, if_true]
      exact .idle rfl fun _ _ => rfl
    | false =>
      simp only [callerStep, WorkQueue.enqueue, hc, Bool.false_eq_true, if_false,
        Option.some.injEq, Prod.mk.injEq] at h
      obtain ⟨rfl, rfl⟩ := h
      refine ⟨rfl, fun measure hm => ?_⟩
      simp [callerUpdates, callerHappening, Caller.owes, hc, WorkQueue.enqueueMetrics, hm.depth,
        Happening.brings]
  | refused chunk =>
    cases h
    exact .idle rfl fun _ _ => rfl
  | closing =>
    cases h
    refine ⟨rfl, fun measure _ => ?_⟩
    simp [callerUpdates, callerHappening, Caller.owes, WorkQueue.enqueueMetrics, Happening.brings]
  | reporting updates =>
    cases updates with
    | nil =>
      cases h
      exact .idle rfl fun _ _ => rfl
    | cons update updates =>
      cases h
      refine ⟨rfl, fun measure _ => ?_⟩
      simp [callerUpdates, callerHappening, Caller.owes]

theorem callerUpdates_of_none {c : Caller} {core : Core σ} (h : callerStep c core = none) :
    callerUpdates c = [] := by
  obtain ⟨hidle, -⟩ := idle_of_callerStep h
  rw [callerUpdates, hidle]

/-! ### A step of a worker -/

section Worker

variable {apply : Nat → Chunk → σ → Applied σ} {latency : Hook → Nat}

theorem total_foreign {measure : Update → Nat} (hm : Booked measure) {updates : List Update}
    (h : ∀ update ∈ updates, update.name ∉ bookNames) : total measure updates = 0 :=
  total_eq_zero fun update hmem => hm.foreign update (h update hmem)

theorem callHook_timed (hook : Hook) (w : Worker) (rest : List Duty) (core : Core σ) :
    callHook ⟨apply, .timed latency⟩ hook w rest core =
      (w.withDuties ((Telemetry.standardUpdates (latency hook) hook).map .record ++ rest),
        { core with hooks := hook :: core.hooks }) :=
  callHook_quiet (Telemetry.quiet_timed latency) hook w rest core

theorem busyStep_books (happly : LeavesBooks apply) (worker : Nat) (chunk : Chunk) (duty : Duty)
    (rest : List Duty) (core : Core σ) :
    let job : Job σ := ⟨apply, .timed latency⟩
    let w : Worker := .busy chunk (duty :: rest)
    let next := busyStep job worker chunk duty rest core
    KeepsBooks core next.2 (workerUpdates job worker w core) (workerHappening job worker w core)
      (fun measure => w.owes measure) fun measure => next.1.owes measure := by
  cases duty with
  | tellDepth =>
    simp only [busyStep, callHook_timed]
    refine .idle rfl fun measure hm => ?_
    simp [Telemetry.standardUpdates, Worker.withDuties, Worker.owes, Duty.owes, hm.depth]
  | tellStarted =>
    simp only [busyStep, callHook_timed]
    refine .idle rfl fun measure _ => ?_
    simp [Telemetry.standardUpdates, Worker.withDuties, Worker.owes, Duty.owes, startCost,
      Nat.add_assoc]
  | tellEnded result =>
    cases result with
    | ok write | error error =>
      simp only [busyStep, callHook_timed]
      refine .idle rfl fun measure hm => ?_
      simp [Telemetry.standardUpdates, Worker.withDuties, Worker.owes, Duty.owes, resultCost,
        endCost, hm.timeless, Nat.add_assoc]
  | apply =>
    refine ⟨rfl, fun measure hm => ?_⟩
    have hforeign := total_foreign hm (happly worker chunk core.shared)
    simp only [workerUpdates, hforeign, busyStep, Core.apply, workerHappening, Worker.owes, total_cons,
      Duty.owes, Happening.brings, total_nil]
    omega
  | record update =>
    refine ⟨rfl, fun measure _ => ?_⟩
    simp [busyStep, workerUpdates, workerHappening, Worker.owes, Duty.owes, Nat.add_assoc]
  | countCompleted | countTask | send | tellExited =>
    refine .idle rfl fun measure _ => ?_
    simp [busyStep, Worker.owes, Duty.owes]

theorem leavingStep_books (worker : Nat) (duty : Duty) (rest : List Duty) (core : Core σ) :
    let job : Job σ := ⟨apply, .timed latency⟩
    let w : Worker := .leaving (duty :: rest)
    let next := leavingStep job worker duty rest core
    KeepsBooks core next.2 (workerUpdates job worker w core) [] (fun measure => w.owes measure)
      fun measure => next.1.owes measure := by
  cases duty with
  | tellExited =>
    simp only [leavingStep, callHook_timed]
    refine .idle rfl fun measure _ => ?_
    simp [Telemetry.standardUpdates, Worker.withDuties, Worker.owes, Duty.owesLast, exitCost]
  | record update =>
    refine ⟨rfl, fun measure _ => ?_⟩
    simp [leavingStep, workerUpdates, Worker.owes, Duty.owesLast]
  | _ =>
    refine .idle rfl fun measure _ => ?_
    simp [leavingStep, Worker.owes, Duty.owesLast]

theorem workerStep_books (happly : LeavesBooks apply) {worker : Nat} {w w' : Worker}
    {core core' : Core σ} (h : workerStep ⟨apply, .timed latency⟩ worker w core = some (w', core')) :
    KeepsBooks core core' (workerUpdates ⟨apply, .timed latency⟩ worker w core)
      (workerHappening ⟨apply, .timed latency⟩ worker w core) (fun measure => w.owes measure)
      fun measure => w'.owes measure := by
  simp only [workerStep] at h
  split at h
  · simp only [Option.some.injEq, Prod.ext_iff] at h
    obtain ⟨rfl, rfl⟩ := h
    cases w with
    | waiting =>
      rcases htake : core.queue.take? with - | ⟨chunk | -, queue⟩
      · simp only [advance, workerHappening, htake]
        exact .idle rfl fun _ _ => rfl
      · simp only [advance, workerHappening, htake]
        refine ⟨rfl, fun measure _ => ?_⟩
        simp only [workerUpdates, Worker.owes, firstDuties, total_cons, total_nil, Duty.owes,
          Happening.brings]
        omega
      · simp only [advance, workerHappening, htake]
        exact .idle rfl fun _ _ => rfl
    | busy chunk duties =>
      cases duties with
      | nil =>
        refine .idle rfl fun measure _ => ?_
        simp [advance, Worker.owes]
      | cons duty rest => exact busyStep_books happly worker chunk duty rest core
    | leaving duties =>
      cases duties with
      | nil => exact .idle rfl fun _ _ => rfl
      | cons duty rest => exact leavingStep_books worker duty rest core
    | gone => exact .idle rfl fun _ _ => rfl
    | dead report => exact .idle rfl fun _ _ => rfl
  · cases h

theorem workerUpdates_of_none {job : Job σ} {worker : Nat} {w : Worker} {core : Core σ}
    (h : workerStep job worker w core = none) : workerUpdates job worker w core = [] := by
  cases w with
  | busy chunk duties => cases h
  | leaving duties => cases h
  | _ => rfl

end Worker

/-! ### The balance -/

/-- The books of a pool with history `h` that has made `updates`, starting from no metrics. -/
structure Ledger (s : System σ) (h : List Happening) (updates : List Update) : Prop where
  metrics : s.core.metrics = Metrics.Store.empty.applyAll updates
  /-- What is recorded and what is owed make up an exit for each worker and what was brought. -/
  balance : ∀ measure, Booked measure →
    total measure updates + total (Worker.owes measure) s.workers +
        total (Caller.owes measure) s.callers =
      s.workers.length * exitCost measure + total (Happening.brings measure) h

namespace Ledger

variable {apply : Nat → Chunk → σ → Applied σ} {latency : Hook → Nat}

theorem start (workers : Nat) (shared : σ) (calls : List (List Call)) :
    Ledger (.start workers shared .empty calls) [] [] where
  metrics := rfl
  balance measure _ := by
    have hcallers : total (Caller.owes measure) (calls.map Caller.start) = 0 := by
      rw [total_map]
      exact total_eq_zero fun _ _ => rfl
    simp only [System.start, total_replicate, hcallers, List.length_replicate, total_nil, Worker.owes]
    omega

/-- **Every step keeps the books.** -/
theorem step (happly : LeavesBooks apply) {s : System σ} {h : List Happening} {updates : List Update}
    (hi : Ledger s h updates) (actor : Actor) :
    Ledger (s.step ⟨apply, .timed latency⟩ actor) (h ++ s.happening ⟨apply, .timed latency⟩ actor)
      (updates ++ s.updates ⟨apply, .timed latency⟩ actor) := by
  cases actor with
  | caller i =>
    simp only [System.step, System.happening, System.updates]
    rcases hc : s.callers[i]? with - | c
    · simpa using hi
    rcases hstep : callerStep c s.core with - | ⟨c', core'⟩
    · simpa [hstep, callerHappening_of_none hstep, callerUpdates_of_none hstep] using hi
    simp only [Option.bind_some, hstep, Option.elim_some]
    have hbooks := callerStep_books hstep
    refine ⟨?_, fun measure hm => ?_⟩
    · rw [hbooks.metrics, hi.metrics, Metrics.Store.applyAll_append]
    · have hset := total_set (Caller.owes measure) c' hc
      have hbefore := hi.balance measure hm
      have hafter := hbooks.balance measure hm
      simp only [total_append]
      omega
  | worker i =>
    simp only [System.step, System.happening, System.updates]
    rcases hw : s.workers[i]? with - | w
    · simpa using hi
    rcases hstep : workerStep ⟨apply, .timed latency⟩ i w s.core with - | ⟨w', core'⟩
    · simpa [hstep, workerHappening_of_none hstep, workerUpdates_of_none hstep] using hi
    simp only [Option.bind_some, hstep, Option.elim_some]
    have hbooks := workerStep_books happly hstep
    refine ⟨?_, fun measure hm => ?_⟩
    · rw [hbooks.metrics, hi.metrics, Metrics.Store.applyAll_append]
    · have hset := total_set (Worker.owes measure) w' hw
      have hbefore := hi.balance measure hm
      have hafter := hbooks.balance measure hm
      simp only [total_append, List.length_set]
      omega

theorem steps (happly : LeavesBooks apply) {s : System σ} {h : List Happening} {updates : List Update}
    (hi : Ledger s h updates) (schedule : List Actor) :
    Ledger (s.run ⟨apply, .timed latency⟩ schedule)
      (h ++ s.history ⟨apply, .timed latency⟩ schedule)
      (updates ++ s.recorded ⟨apply, .timed latency⟩ schedule) := by
  induction schedule generalizing s h updates with
  | nil => simpa [System.history, System.recorded, System.run] using hi
  | cons actor rest ih =>
    rw [System.history, System.recorded, ← List.append_assoc, ← List.append_assoc]
    exact ih (hi.step happly actor)

/-- **The books balance at every moment**, whatever the schedule. -/
theorem run (happly : LeavesBooks apply) (latency : Hook → Nat) (workers : Nat) (shared : σ)
    (calls : List (List Call)) (schedule : List Actor) :
    let s : System σ := .start workers shared .empty calls
    Ledger (s.run ⟨apply, .timed latency⟩ schedule) (s.history ⟨apply, .timed latency⟩ schedule)
      (s.recorded ⟨apply, .timed latency⟩ schedule) := by
  simpa using (start workers shared calls).steps happly schedule

end Ledger

end FilteredChunks.Pool
