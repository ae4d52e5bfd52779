import FilteredChunks.Pool.Drain
import FilteredChunks.Proofs.Pool.History

/-!
# What a step of a worker keeps

A worker owes something for the chunk it has: to apply the function to it, to count it twice and to
send its outcome.  `WorkerEffect` says that a step moves what is owed on, from the queue to the worker
and from there to the counts and outcomes, and that nothing gets lost on the way; `workerEffect_of_step`
proves it of every step, provided that no hook crashes.
-/

namespace FilteredChunks.Pool

variable {σ : Type}

/-! ### What a worker owes -/

/-- The telemetry of a pool whose hooks do not crash. -/
def Telemetry.Quiet (telemetry : Telemetry) : Prop := ∀ hook, telemetry.crash hook = none

/-- Whether a duty is to apply the function. -/
def Duty.isApply : Duty → Bool
  | apply => true
  | _ => false

/-- Whether a duty is to count the chunk as done, in the count of all workers. -/
def Duty.isCount : Duty → Bool
  | countCompleted => true
  | _ => false

/-- Whether a duty is to count the chunk as done, in the count of the worker. -/
def Duty.isTally : Duty → Bool
  | countTask => true
  | _ => false

/-- The outcome that a duty is to send. -/
def Duty.outgoing (chunk : Chunk) : Duty → Option ChunkOutcome
  | send result => some (outcomeAt (chunk, result))
  | _ => none

namespace Worker

/-- The chunk that a worker has taken and not yet applied the function to. -/
def unapplied : Worker → List Chunk
  | busy chunk duties => (duties.filter Duty.isApply).map fun _ => chunk
  | _ => []

/-- The outcome that a worker has and has not sent. -/
def unsent : Worker → List ChunkOutcome
  | busy chunk duties => duties.filterMap (Duty.outgoing chunk)
  | _ => []

/-- How often a worker has yet to raise the count of all workers. -/
def uncounted : Worker → Nat
  | busy _ duties => duties.countP Duty.isCount
  | _ => 0

/-- How often a worker has yet to raise its own count. -/
def untallied : Worker → Nat
  | busy _ duties => duties.countP Duty.isTally
  | _ => 0

/-- Whether a worker has been told that the stream has ended. -/
def hasLeft : Worker → Bool
  | leaving _ | gone => true
  | _ => false

def isDead : Worker → Bool
  | dead _ => true
  | _ => false

/-- A worker applies the function before it does anything else that the outcome is needed for: this
duty is the last of those it has. -/
def Orderly : Worker → Prop
  | busy _ duties => ∀ before after, duties = before ++ .apply :: after → after = []
  | _ => True

end Worker

/-- Applying the function to some chunks one after the other, by whichever workers, leads from one
shared state to another and has these outcomes. -/
inductive Serial (job : Job σ) :
    σ → List (Chunk × Except FilterError ChunkWrite) → σ → Prop
  | nil (shared : σ) : Serial job shared [] shared
  | cons {shared shared' : σ} {rest : List (Chunk × Except FilterError ChunkWrite)} (worker : Nat)
      (chunk : Chunk) (h : Serial job (job.apply worker chunk shared).shared rest shared') :
      Serial job shared ((chunk, outcomeOf chunk (job.apply worker chunk shared).result) :: rest)
        shared'

theorem Serial.append {job : Job σ} {s t u : σ}
    {xs ys : List (Chunk × Except FilterError ChunkWrite)} (hx : Serial job s xs t)
    (hy : Serial job t ys u) : Serial job s (xs ++ ys) u := by
  induction hx with
  | nil => exact hy
  | cons worker chunk _ ih => exact .cons worker chunk (ih hy)

/-- What a step of a worker does, `e` being what happens in it. -/
structure WorkerEffect (job : Job σ) (w : Worker) (core : Core σ) (e : List Happening) (w' : Worker)
    (core' : Core σ) : Prop where
  entered : entered e = []
  ends : ends e = 0
  closed : core'.queue.closed = core.queue.closed
  accepting : core'.accepting = core.accepting
  submitted : core'.submitted = core.submitted
  items : core.queue.items = taken e ++ core'.queue.items
  applies : w.unapplied ++ taken e = applied e ++ w'.unapplied
  sends : ∃ sent, core'.outcomes = sent.reverse ++ core.outcomes ∧
    w.unsent ++ (applications e).map outcomeAt = sent ++ w'.unsent
  counts : core'.completed + w'.uncounted =
    core.completed + w.uncounted + (applications e).length
  tallies : total id core'.tasks + w'.untallied =
    total id core.tasks + w.untallied + (applications e).length
  tasks_length : core'.tasks.length = core.tasks.length
  serial : Serial job core.shared (applications e) core'.shared
  /-- Only an empty and closed queue lets a worker go. -/
  left : w'.hasLeft = true →
    w.hasLeft = true ∨ core.queue.items = [] ∧ core.queue.closed = true
  alive : w'.isDead = false
  orderly : w'.Orderly

/-! ### Duties -/

@[simp]
theorem isApply_comp_record : Duty.isApply ∘ Duty.record = fun _ => false := rfl

@[simp]
theorem isCount_comp_record : Duty.isCount ∘ Duty.record = fun _ => false := rfl

@[simp]
theorem isTally_comp_record : Duty.isTally ∘ Duty.record = fun _ => false := rfl

theorem filterMap_outgoing_record (chunk : Chunk) (updates : List Metrics.Update) :
    (updates.map Duty.record).filterMap (Duty.outgoing chunk) = [] := by
  rw [List.filterMap_eq_nil_iff]
  intro duty hmem
  obtain ⟨update, -, rfl⟩ := List.mem_map.1 hmem
  rfl

theorem total_modify {tasks : List Nat} {worker : Nat} (h : worker < tasks.length) :
    total id (tasks.modify worker (· + 1)) = total id tasks + 1 := by
  induction tasks generalizing worker with
  | nil => simp at h
  | cons n tasks ih =>
    cases worker with
    | zero =>
      simp only [List.modify_zero_cons, total_cons, id]
      omega
    | succ worker =>
      simp only [List.modify_succ_cons, total_cons, ih (Nat.lt_of_succ_lt_succ h)]
      omega

namespace Worker

theorem Orderly.tail {chunk : Chunk} {duty : Duty} {rest : List Duty}
    (h : (busy chunk (duty :: rest)).Orderly) : (busy chunk rest).Orderly := by
  intro before after heq
  exact h (duty :: before) after (by rw [heq, List.cons_append])

theorem Orderly.cons {chunk : Chunk} {duty : Duty} {rest : List Duty} (hd : duty ≠ .apply)
    (h : (busy chunk rest).Orderly) : (busy chunk (duty :: rest)).Orderly := by
  intro before after heq
  cases before with
  | nil => exact absurd (List.cons.inj heq).1 hd
  | cons _ before => exact h before after (List.cons.inj heq).2

theorem Orderly.records {chunk : Chunk} {rest : List Duty} (h : (busy chunk rest).Orderly)
    (updates : List Metrics.Update) : (busy chunk (updates.map .record ++ rest)).Orderly := by
  induction updates with
  | nil => exact h
  | cons update updates ih => exact ih.cons (by simp)

theorem orderly_nil (chunk : Chunk) : (busy chunk []).Orderly := by
  intro before after heq
  simp at heq

theorem orderly_firstDuties (chunk : Chunk) : (busy chunk firstDuties).Orderly := by
  refine .cons (by simp) (.cons (by simp) ?_)
  rintro (- | ⟨duty, before⟩) after heq
  · exact (List.cons.inj heq).2.symm
  · simp at heq

theorem orderly_lastDuties (chunk : Chunk) (result : Except FilterError ChunkWrite) :
    (busy chunk [.tellEnded result, .countCompleted, .countTask, .send result]).Orderly :=
  .cons (by simp) (.cons (by simp) (.cons (by simp) (.cons (by simp) (orderly_nil chunk))))

end Worker

/-! ### Every step of a worker -/

theorem callHook_quiet {job : Job σ} (hq : job.telemetry.Quiet) (hook : Hook) (w : Worker)
    (rest : List Duty) (core : Core σ) :
    callHook job hook w rest core =
      (w.withDuties ((job.telemetry.updates hook).map .record ++ rest),
        { core with hooks := hook :: core.hooks }) := by
  simp only [callHook, hq hook]

theorem WorkerEffect.of_core {job : Job σ} {w w' : Worker} {core core' : Core σ}
    (hcore : ∃ metrics hooks, core' = { core with metrics := metrics, hooks := hooks })
    (happly : w'.unapplied = w.unapplied) (hsend : w'.unsent = w.unsent)
    (hcount : w'.uncounted = w.uncounted) (htally : w'.untallied = w.untallied)
    (hleft : w'.hasLeft = true →
      w.hasLeft = true ∨ core.queue.items = [] ∧ core.queue.closed = true)
    (halive : w'.isDead = false) (horderly : w'.Orderly) : WorkerEffect job w core [] w' core' := by
  obtain ⟨metrics, hooks, rfl⟩ := hcore
  constructor
  case applies =>
    rw [happly]
    exact List.append_nil _
  case sends =>
    refine ⟨[], rfl, ?_⟩
    rw [hsend]
    exact List.append_nil _
  case counts =>
    rw [hcount]
    rfl
  case tallies =>
    rw [htally]
    rfl
  case serial => exact .nil _
  case left => exact hleft
  case alive => exact halive
  case orderly => exact horderly
  all_goals rfl

theorem workerEffect_idle {job : Job σ} {chunk : Chunk} {duty : Duty} {rest duties : List Duty}
    {core core' : Core σ} (horderly : (Worker.busy chunk (duty :: rest)).Orderly)
    (ha : duty.isApply = false) (ho : duty.outgoing chunk = none)
    (hc : duty.isCount = false) (ht : duty.isTally = false)
    (hd : ∃ updates : List Metrics.Update, duties = updates.map .record ++ rest)
    (hcore : ∃ metrics hooks, core' = { core with metrics := metrics, hooks := hooks }) :
    WorkerEffect job (.busy chunk (duty :: rest)) core [] (.busy chunk duties) core' := by
  obtain ⟨updates, rfl⟩ := hd
  refine .of_core hcore ?_ ?_ ?_ ?_ (fun h => by cases h) rfl (horderly.tail.records updates)
  · simp [Worker.unapplied, List.filter_map, ha]
  · simp only [Worker.unsent, List.filterMap_cons, ho, List.filterMap_append,
      filterMap_outgoing_record, List.nil_append]
  · simp [Worker.uncounted, hc]
  · simp [Worker.untallied, ht]

theorem busyStep_effect {job : Job σ} (hq : job.telemetry.Quiet) {worker : Nat} {chunk : Chunk}
    {duty : Duty} {rest : List Duty} {core : Core σ} (hw : worker < core.tasks.length)
    (horderly : (Worker.busy chunk (duty :: rest)).Orderly) :
    WorkerEffect job (.busy chunk (duty :: rest)) core
      (workerHappening job worker (.busy chunk (duty :: rest)) core)
      (busyStep job worker chunk duty rest core).1 (busyStep job worker chunk duty rest core).2 := by
  cases duty with
  | tellDepth =>
    simp only [busyStep, callHook_quiet hq]
    exact workerEffect_idle horderly rfl rfl rfl rfl ⟨_, rfl⟩ ⟨_, _, rfl⟩
  | tellStarted =>
    simp only [busyStep, callHook_quiet hq]
    exact workerEffect_idle horderly rfl rfl rfl rfl ⟨_, rfl⟩ ⟨_, _, rfl⟩
  | tellEnded result =>
    cases result <;>
    · simp only [busyStep, callHook_quiet hq]
      exact workerEffect_idle horderly rfl rfl rfl rfl ⟨_, rfl⟩ ⟨_, _, rfl⟩
  | tellExited => exact workerEffect_idle horderly rfl rfl rfl rfl ⟨[], rfl⟩ ⟨_, _, rfl⟩
  | record update => exact workerEffect_idle horderly rfl rfl rfl rfl ⟨[], rfl⟩ ⟨_, _, rfl⟩
  | apply =>
    -- no duty comes after this one, so no outcome waits to be sent
    obtain rfl := horderly [] rest rfl
    constructor
    case applies => exact List.append_nil _
    case sends => exact ⟨[], rfl, rfl⟩
    case counts =>
      simp [busyStep, Core.apply, Worker.uncounted, workerHappening, applications, Duty.isCount,
        List.countP_cons]
    case tallies =>
      simp [busyStep, Core.apply, Worker.untallied, workerHappening, applications, Duty.isTally,
        List.countP_cons]
    case serial => exact .cons worker chunk (.nil _)
    case left =>
      intro h
      cases h
    case orderly => exact Worker.orderly_lastDuties chunk _
    all_goals rfl
  | countCompleted =>
    constructor
    case applies => exact List.append_nil _
    case sends => exact ⟨[], rfl, List.append_nil _⟩
    case counts =>
      simp only [busyStep, Worker.uncounted, List.countP_cons, Duty.isCount, workerHappening,
        applications_nil, List.length_nil, if_true]
      omega
    case serial => exact .nil _
    case left =>
      intro h
      cases h
    case orderly => exact horderly.tail
    all_goals rfl
  | countTask =>
    constructor
    case applies => exact List.append_nil _
    case sends => exact ⟨[], rfl, List.append_nil _⟩
    case tallies =>
      simp only [busyStep, Worker.untallied, List.countP_cons, Duty.isTally, workerHappening,
        applications_nil, List.length_nil, if_true, total_modify hw]
      omega
    case tasks_length => exact List.length_modify ..
    case serial => exact .nil _
    case left =>
      intro h
      cases h
    case orderly => exact horderly.tail
    all_goals rfl
  | send result =>
    constructor
    case applies => exact List.append_nil _
    case sends => exact ⟨[outcomeAt (chunk, result)], rfl, List.append_nil _⟩
    case serial => exact .nil _
    case left =>
      intro h
      cases h
    case orderly => exact horderly.tail
    all_goals rfl

theorem leavingStep_effect {job : Job σ} (hq : job.telemetry.Quiet) {worker : Nat} {duty : Duty}
    {rest : List Duty} {core : Core σ} :
    WorkerEffect job (.leaving (duty :: rest)) core []
      (leavingStep job worker duty rest core).1 (leavingStep job worker duty rest core).2 := by
  cases duty with
  | tellExited =>
    simp only [leavingStep, callHook_quiet hq]
    exact .of_core ⟨_, _, rfl⟩ rfl rfl rfl rfl (fun _ => .inl rfl) rfl trivial
  | _ => exact .of_core ⟨_, _, rfl⟩ rfl rfl rfl rfl (fun _ => .inl rfl) rfl trivial

theorem waiting_effect {job : Job σ} {worker : Nat} {core : Core σ}
    (h : Worker.waiting.isReady core.queue = true) :
    WorkerEffect job .waiting core (workerHappening job worker .waiting core)
      (advance job worker .waiting core).1 (advance job worker .waiting core).2 := by
  rcases htake : core.queue.take? with - | ⟨chunk | -, queue⟩
  · obtain ⟨hitems, hclosed⟩ := WorkQueue.take?_eq_none_iff.1 htake
    simp [Worker.isReady, WorkQueue.isEmpty_iff.2 hitems, hclosed] at h
  · simp only [advance, workerHappening, htake]
    constructor
    case closed => exact WorkQueue.closed_of_take? htake
    case items => exact WorkQueue.items_of_take? htake
    case sends => exact ⟨[], rfl, rfl⟩
    case serial => exact .nil _
    case left =>
      intro h
      cases h
    case orderly => exact Worker.orderly_firstDuties chunk
    all_goals rfl
  · obtain rfl := WorkQueue.eq_of_take?_endOfStream htake
    simp only [advance, workerHappening, htake]
    exact .of_core ⟨_, _, rfl⟩ rfl rfl rfl rfl (fun _ => .inr (WorkQueue.ended_of_take? htake)) rfl
      trivial

/-- **What every step of a worker does.** -/
theorem workerEffect_of_step {job : Job σ} (hq : job.telemetry.Quiet) {worker : Nat} {w w' : Worker}
    {core core' : Core σ} (hw : worker < core.tasks.length) (horderly : w.Orderly)
    (h : workerStep job worker w core = some (w', core')) :
    WorkerEffect job w core (workerHappening job worker w core) w' core' := by
  simp only [workerStep] at h
  split at h
  · next hready =>
    simp only [Option.some.injEq, Prod.ext_iff] at h
    obtain ⟨rfl, rfl⟩ := h
    cases w with
    | waiting => exact waiting_effect hready
    | busy chunk duties =>
      cases duties with
      | nil =>
        refine .of_core ⟨_, _, rfl⟩ rfl rfl rfl rfl ?_ rfl trivial
        intro h
        cases h
      | cons duty rest => exact busyStep_effect hq hw horderly
    | leaving duties =>
      cases duties with
      | nil => exact .of_core ⟨_, _, rfl⟩ rfl rfl rfl rfl (fun _ => .inl rfl) rfl trivial
      | cons duty rest => exact leavingStep_effect hq
    | gone => cases hready
    | dead report => cases hready
  · cases h

end FilteredChunks.Pool
