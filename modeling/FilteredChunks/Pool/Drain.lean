import FilteredChunks.Pool.Machine
import FilteredChunks.Total

/-!
# Running participants to their end

A caller on its own gets through all its requests, and a worker on its own goes on until it waits for
a chunk in vain, is gone or has died.  Both follow from a measure that every step makes smaller: for a
worker the chunks in the queue, then the phase, then the duties.
-/

namespace FilteredChunks.Pool

variable {σ : Type}

/-! ### Callers -/

/-- How much of its current request a caller has yet to do, in phases. -/
def CallPhase.rank : CallPhase → Nat
  | idle => 0
  | reporting _ => 1
  | refused _ => 1
  | closing => 2
  | counted _ => 2
  | admitted _ => 3

/-- Number of metrics yet to be recorded. -/
def CallPhase.pending : CallPhase → Nat
  | reporting updates => updates.length
  | _ => 0

theorem callerStep_decreases {c c' : Caller} {core core' : Core σ}
    (h : callerStep c core = some (c', core')) :
    c'.calls.length < c.calls.length ∨ c'.calls.length = c.calls.length ∧
      (c'.phase.rank < c.phase.rank ∨ c'.phase.rank = c.phase.rank ∧
        c'.phase.pending < c.phase.pending) := by
  obtain ⟨phase, calls, answers⟩ := c
  cases phase with
  | idle =>
    refine .inl ?_
    simp only [callerStep, beginCall] at h
    split at h
    · contradiction
    all_goals
      next heq =>
      split at h <;> cases h <;> simp_all [Caller.answer]
  | admitted chunk =>
    cases h
    simp [CallPhase.rank]
  | counted chunk =>
    simp only [callerStep] at h
    split at h <;> cases h <;> simp [CallPhase.rank]
  | refused chunk =>
    cases h
    simp [CallPhase.rank, Caller.answer]
  | closing =>
    cases h
    simp [CallPhase.rank]
  | reporting updates =>
    cases updates with
    | nil =>
      cases h
      simp [CallPhase.rank, Caller.answer]
    | cons update updates =>
      cases h
      simp [CallPhase.rank, CallPhase.pending]

/-- A caller takes all its steps. -/
def finishCaller (c : Caller) (core : Core σ) : Caller × Core σ :=
  match h : callerStep c core with
  | none => (c, core)
  | some (c', core') =>
    have := callerStep_decreases h
    finishCaller c' core'
termination_by (c.calls.length, c.phase.rank, c.phase.pending)
decreasing_by
  simp only [Prod.lex_def]
  assumption

/-- The answer to one request and the pool after it. -/
def serve (call : Call) (core : Core σ) : Except FilterError Unit × Core σ :=
  let (c, core) := finishCaller (.start [call]) core
  (c.answers.head?.getD (.ok ()), core)

/-! ### Workers -/

namespace Duty

/-- How many duties other than recording metrics may come of a duty, itself included. -/
def weight : Duty → Nat
  | record _ => 0
  | apply => 5
  | _ => 1

end Duty

namespace Worker

def rank : Worker → Nat
  | busy .. => 3
  | waiting => 2
  | leaving _ => 1
  | gone => 0
  | dead _ => 0

def duties : Worker → List Duty
  | busy _ duties => duties
  | leaving duties => duties
  | _ => []

/-- The weight of all duties. -/
def weight (w : Worker) : Nat := total Duty.weight w.duties

end Worker

@[simp]
theorem total_weight_record (updates : List Metrics.Update) :
    total Duty.weight (updates.map .record) = 0 := by
  refine total_eq_zero fun duty h => ?_
  obtain ⟨update, -, rfl⟩ := List.mem_map.1 h
  rfl

/-- A worker's measure after a step, compared with the one before, for one queue. -/
def Shrinks (w' w : Worker) : Prop :=
  w'.rank < w.rank ∨ w'.rank = w.rank ∧
    (w'.weight < w.weight ∨ w'.weight = w.weight ∧ w'.duties.length < w.duties.length)

theorem callHook_shrinks {job : Job σ} {hook : Hook} {w w₀ : Worker} {rest : List Duty}
    {core : Core σ} (hr : w.rank = w₀.rank) (hr₀ : 0 < w₀.rank)
    (hd : (w.withDuties ((job.telemetry.updates hook).map .record ++ rest)).weight < w₀.weight)
    (hw : ∀ ds, (w.withDuties ds).rank = w.rank) :
    Shrinks (callHook job hook w rest core).1 w₀ := by
  simp only [callHook]
  split
  · exact .inl hr₀
  · exact .inr ⟨(hw _).trans hr, .inl hd⟩

theorem busyStep_shrinks (job : Job σ) (worker : Nat) (chunk : Chunk) (duty : Duty)
    (rest : List Duty) (core : Core σ) :
    Shrinks (busyStep job worker chunk duty rest core).1 (.busy chunk (duty :: rest)) := by
  have hook (h : Hook) (hd : 0 < duty.weight) :
      Shrinks (callHook job h (.busy chunk rest) rest core).1 (.busy chunk (duty :: rest)) :=
    callHook_shrinks rfl (by simp [Worker.rank])
      (by simp [Worker.weight, Worker.withDuties, Worker.duties, hd]) fun _ => rfl
  have less (hd : 0 < duty.weight) : Shrinks (.busy chunk rest) (.busy chunk (duty :: rest)) :=
    .inr ⟨rfl, .inl (by simp [Worker.weight, Worker.duties, hd])⟩
  cases duty with
  | tellDepth => exact hook _ (by decide)
  | tellStarted => exact hook _ (by decide)
  | apply =>
    refine .inr ⟨rfl, .inl ?_⟩
    simp [busyStep, Worker.weight, Worker.duties, Duty.weight]
    omega
  | tellEnded result =>
    cases result <;> exact hook _ (by simp [Duty.weight])
  | countCompleted => exact less (by decide)
  | countTask => exact less (by decide)
  | send result => exact less (by simp [Duty.weight])
  | tellExited => exact less (by decide)
  | record update =>
    exact .inr ⟨rfl, .inr ⟨by simp [busyStep, Worker.weight, Worker.duties, Duty.weight],
      by simp [busyStep, Worker.duties]⟩⟩

theorem leavingStep_shrinks (job : Job σ) (worker : Nat) (duty : Duty) (rest : List Duty)
    (core : Core σ) :
    Shrinks (leavingStep job worker duty rest core).1 (.leaving (duty :: rest)) := by
  have less : Shrinks (.leaving rest) (.leaving (duty :: rest)) := by
    refine .inr ⟨rfl, ?_⟩
    simp only [Worker.weight, Worker.duties, total_cons, List.length_cons]
    omega
  cases duty with
  | tellExited =>
    exact callHook_shrinks rfl (by simp [Worker.rank])
      (by simp [Worker.weight, Worker.withDuties, Worker.duties, Duty.weight]) fun _ => rfl
  | _ => exact less

theorem callHook_queue (job : Job σ) (hook : Hook) (w : Worker) (rest : List Duty)
    (core : Core σ) : (callHook job hook w rest core).2.queue = core.queue := by
  simp only [callHook]
  split <;> rfl

theorem busyStep_queue (job : Job σ) (worker : Nat) (chunk : Chunk) (duty : Duty)
    (rest : List Duty) (core : Core σ) :
    (busyStep job worker chunk duty rest core).2.queue = core.queue := by
  unfold busyStep
  split <;> first | rfl | exact callHook_queue ..

theorem leavingStep_queue (job : Job σ) (worker : Nat) (duty : Duty) (rest : List Duty)
    (core : Core σ) : (leavingStep job worker duty rest core).2.queue = core.queue := by
  unfold leavingStep
  split <;> first | rfl | exact callHook_queue ..

/-- Every step of a worker takes a chunk from the queue or shrinks the worker. -/
theorem advance_decreases (job : Job σ) (worker : Nat) {w : Worker} {core : Core σ}
    (h : w.isReady core.queue = true) :
    (advance job worker w core).2.queue.length < core.queue.length ∨
      (advance job worker w core).2.queue.length = core.queue.length ∧
        Shrinks (advance job worker w core).1 w := by
  cases w with
  | waiting =>
    simp only [advance]
    split
    · next htake =>
      have := WorkQueue.length_of_take? htake
      exact .inl (by dsimp only; omega)
    · next htake =>
      exact .inr ⟨by rw [WorkQueue.eq_of_take?_endOfStream htake], .inl (by simp [Worker.rank])⟩
    · next htake =>
      obtain ⟨hitems, hclosed⟩ := WorkQueue.take?_eq_none_iff.1 htake
      simp [Worker.isReady, WorkQueue.isEmpty_iff.2 hitems, hclosed] at h
  | busy chunk duties =>
    cases duties with
    | nil => exact .inr ⟨rfl, .inl (by simp [Worker.rank, advance])⟩
    | cons duty rest =>
      exact .inr ⟨congrArg WorkQueue.length (busyStep_queue job worker chunk duty rest core),
        busyStep_shrinks job worker chunk duty rest core⟩
  | leaving duties =>
    cases duties with
    | nil => exact .inr ⟨rfl, .inl (by simp [Worker.rank, advance])⟩
    | cons duty rest =>
      exact .inr ⟨congrArg WorkQueue.length (leavingStep_queue job worker duty rest core),
        leavingStep_shrinks job worker duty rest core⟩
  | gone => contradiction
  | dead report => contradiction

/-- A worker takes steps as long as it can. -/
def drainWorker (job : Job σ) (worker : Nat) (w : Worker) (core : Core σ) : Worker × Core σ :=
  if h : w.isReady core.queue = true then
    have := advance_decreases job worker h
    let next := advance job worker w core
    drainWorker job worker next.1 next.2
  else (w, core)
termination_by (core.queue.length, w.rank, w.weight, w.duties.length)
decreasing_by
  simp only [Prod.lex_def]
  assumption

/-- The workers, the first of them having the given number, take all their steps one after the
other. -/
def drainWorkers (job : Job σ) : (first : Nat) → List Worker → Core σ → List Worker × Core σ
  | _, [], core => ([], core)
  | first, w :: ws, core =>
    let (w, core) := drainWorker job first w core
    let (ws, core) := drainWorkers job (first + 1) ws core
    (w :: ws, core)

end FilteredChunks.Pool
