import FilteredChunks.Proofs.Pool.Callers
import FilteredChunks.Proofs.Pool.Workers
import Mathlib.Data.List.Forall2

/-!
# The accounts of a pool

`Accounts` is what holds between the history of a pool and its state at every moment, whatever the
schedule: each chunk that entered the queue still waits, is owed by a worker, or is applied, counted and
sent.  `Accounts.step` has it kept by a step of anyone and `Accounts.run` by every schedule.
-/

namespace FilteredChunks.Pool

variable {σ : Type}

/-- A pool in which nothing has happened yet.  Only the workers marked in `spawned` could be started;
the others never do anything. -/
def System.spawn (spawned : List Bool) (shared : σ) (metrics : Metrics.Store)
    (calls : List (List Call)) : System σ where
  core := .start spawned.length shared metrics
  callers := calls.map Caller.start
  workers := spawned.map fun started => if started then .waiting else .gone

/-- The accounts of a pool with history `h`, whose callers were to make `calls`. -/
structure Accounts (job : Job σ) (spawned : List Bool) (shared : σ) (calls : List (List Call))
    (s : System σ) (h : List Happening) : Prop where
  queued : entered h = taken h ++ s.core.queue.items
  closed : s.core.queue.closed = decide (0 < ends h)
  applies : ∀ p : Chunk → Bool,
    (taken h).countP p = (applied h).countP p + total (fun w => w.unapplied.countP p) s.workers
  sends : ∀ p : ChunkOutcome → Bool, ((applications h).map outcomeAt).countP p =
    s.core.outcomes.countP p + total (fun w => w.unsent.countP p) s.workers
  counts : s.core.completed + total Worker.uncounted s.workers = (applications h).length
  tallies : total id s.core.tasks + total Worker.untallied s.workers = (applications h).length
  tasks : s.core.tasks.length = s.workers.length
  workers : s.workers.length = spawned.length
  serial : Serial job shared (applications h) s.core.shared
  alive : ∀ w ∈ s.workers, w.isDead = false
  orderly : ∀ w ∈ s.workers, w.Orderly
  left : ∀ (i : Nat) (w : Worker), spawned[i]? = some true → s.workers[i]? = some w → w.hasLeft = true →
    s.core.queue.items = [] ∧ s.core.queue.closed = true
  submitted : s.core.submitted = (entered h).length + total (·.phase.owed) s.callers
  /-- Accepting, a request to close it on its way or a mark of the end: a pool has one of these. -/
  once : s.core.open + total (·.phase.owesEnd) s.callers + ends h = 1
  shutdowns : s.core.accepting = true →
    total (·.calls.countP Call.isShutdown) s.callers = total (·.countP Call.isShutdown) calls
  follows : List.Forall₂ (fun calls c => c.Follows calls) calls s.callers
  accepts : ∀ p : Chunk → Bool,
    (entered h).countP p = (acceptedFrom calls (s.callers.map Caller.given)).countP p

namespace Accounts

variable {job : Job σ} {spawned : List Bool} {shared : σ} {calls : List (List Call)}

/-! ### At the start -/

theorem follows_start (calls : List (List Call)) :
    List.Forall₂ (fun calls c => c.Follows calls) calls (calls.map Caller.start) := by
  rw [List.forall₂_map_right_iff, List.forall₂_same]
  exact fun requests _ => ⟨[], requests, rfl, rfl, rfl⟩

theorem acceptedFrom_start (calls : List (List Call)) :
    acceptedFrom calls ((calls.map Caller.start).map Caller.given) = [] := by
  induction calls with
  | nil => rfl
  | cons requests calls ih =>
    have hnone : acceptedOf requests (Caller.start requests).given = [] := by
      simp [acceptedOf, Caller.given, Caller.start]
    simpa [acceptedFrom, hnone] using ih

theorem forall_spawned {P : Worker → Prop} (hw : P .waiting) (hg : P .gone) (spawned : List Bool) :
    ∀ w ∈ spawned.map fun started => if started then Worker.waiting else .gone, P w := by
  intro w hmem
  obtain ⟨started, -, rfl⟩ := List.mem_map.1 hmem
  cases started
  · exact hg
  · exact hw

theorem start (job : Job σ) (hs : spawned ≠ []) (shared : σ) (metrics : Metrics.Store)
    (calls : List (List Call)) :
    Accounts job spawned shared calls (.spawn spawned shared metrics calls) [] := by
  have hpos : 0 < spawned.length := List.length_pos_iff.2 hs
  have zero (measure : Worker → Nat) (hw : measure .waiting = 0) (hg : measure .gone = 0) :
      total measure (System.spawn spawned shared metrics calls).workers = 0 :=
    total_eq_zero (forall_spawned hw hg spawned)
  have idle (measure : Caller → Nat) (hm : ∀ requests, measure (.start requests) = 0) :
      total measure (System.spawn spawned shared metrics calls).callers = 0 := by
    refine total_eq_zero fun c hc => ?_
    obtain ⟨requests, -, rfl⟩ := List.mem_map.1 hc
    exact hm requests
  constructor
  case queued => rfl
  case closed => rfl
  case applies =>
    intro p
    rw [zero _ rfl rfl]
    rfl
  case sends =>
    intro p
    rw [zero _ rfl rfl]
    rfl
  case counts =>
    rw [zero _ rfl rfl]
    rfl
  case tallies =>
    rw [zero _ rfl rfl]
    exact total_eq_zero fun n hn => List.eq_of_mem_replicate hn
  case tasks =>
    simp only [System.spawn, Core.start, List.length_replicate, List.length_map]
    omega
  case workers => exact List.length_map _
  case serial => exact .nil shared
  case alive =>
    refine forall_spawned ?_ ?_ spawned
    · rfl
    · rfl
  case orderly => exact forall_spawned trivial trivial spawned
  case left =>
    intro i w hi hw hleft
    simp only [System.spawn, List.getElem?_map, hi, Option.map_some, if_true,
      Option.some.injEq] at hw
    subst hw
    cases hleft
  case submitted =>
    rw [idle _ fun _ => rfl]
    rfl
  case once =>
    rw [idle _ fun _ => rfl]
    rfl
  case shutdowns =>
    intro _
    exact total_map _ Caller.start calls
  case follows => exact follows_start _
  case accepts =>
    intro p
    simp only [System.spawn, acceptedFrom_start, entered_nil]

/-! ### Every step -/

theorem callerEffect {s : System σ} {h : List Happening}
    (hi : Accounts job spawned shared calls s h) {i : Nat} {c c' : Caller} {core' : Core σ}
    (hc : s.callers[i]? = some c) (hstep : callerStep c s.core = some (c', core')) :
    CallerEffect c s.core (callerHappening c s.core) c' core' := by
  refine callerEffect_of_step ?_ hstep
  have := measure_le_total (·.phase.owed) (List.mem_of_getElem? hc)
  have := hi.submitted
  omega

theorem workerEffect (hq : job.telemetry.Quiet) {s : System σ} {h : List Happening}
    (hi : Accounts job spawned shared calls s h) {i : Nat} {w w' : Worker} {core' : Core σ}
    (hw : s.workers[i]? = some w) (hstep : workerStep job i w s.core = some (w', core')) :
    WorkerEffect job w s.core (workerHappening job i w s.core) w' core' := by
  have hlt : i < s.core.tasks.length := hi.tasks ▸ (List.getElem?_eq_some_iff.1 hw).1
  exact workerEffect_of_step hq hlt (hi.orderly w (List.mem_of_getElem? hw)) hstep

theorem caller_step {s : System σ} {h : List Happening}
    (hi : Accounts job spawned shared calls s h) {i : Nat} {c c' : Caller} {core' : Core σ}
    (hc : s.callers[i]? = some c) (hstep : callerStep c s.core = some (c', core')) :
    Accounts job spawned shared calls { s with core := core', callers := s.callers.set i c' }
      (h ++ callerHappening c s.core) := by
  have he := hi.callerEffect hc hstep
  obtain ⟨hfollows, haccepted⟩ := he.continues.set hi.follows hc
  have hset (m : Caller → Nat) :
      total m (s.callers.set i c') + m c = total m s.callers + m c' := total_set m c' hc
  have happlied : applied (callerHappening c s.core) = [] := by
    rw [applied, he.applications, List.map_nil]
  constructor
  case queued =>
    rw [entered_append, taken_append, he.taken, he.items, hi.queued]
    simp
  case closed =>
    rw [he.closed, hi.closed, ends_append, ← Bool.decide_or, decide_eq_decide]
    omega
  case applies =>
    simpa only [taken_append, applied_append, he.taken, happlied, List.append_nil] using hi.applies
  case sends =>
    simpa only [applications_append, he.applications, List.append_nil, he.outcomes] using hi.sends
  case counts =>
    simpa only [applications_append, he.applications, List.append_nil, he.completed] using hi.counts
  case tallies =>
    simpa only [applications_append, he.applications, List.append_nil, he.tasks] using hi.tallies
  case tasks => exact he.tasks ▸ hi.tasks
  case workers => exact hi.workers
  case serial =>
    simpa only [applications_append, he.applications, List.append_nil, he.shared] using hi.serial
  case alive => exact hi.alive
  case orderly => exact hi.orderly
  case left =>
    intro j w hj hw hleft
    obtain ⟨hitems, hclosed⟩ := hi.left j w hj hw hleft
    rw [he.items, he.closed, entered_callerHappening hclosed, hitems, hclosed]
    exact ⟨rfl, rfl⟩
  case submitted =>
    have := hi.submitted
    have := he.submitted
    have := hset (·.phase.owed)
    simp only [entered_append, List.length_append] at *
    omega
  case once =>
    have := hi.once
    have := he.ends
    have := hset (·.phase.owesEnd)
    simp only [ends_append] at *
    omega
  case shutdowns =>
    intro ha
    obtain ⟨ha', hcount⟩ := he.shutdowns ha
    have := hi.shutdowns ha'
    have := hset (·.calls.countP Call.isShutdown)
    simp only at *
    omega
  case follows => exact hfollows
  case accepts =>
    intro p
    rw [entered_append, List.countP_append, hi.accepts, haccepted]

theorem worker_step (hq : job.telemetry.Quiet) {s : System σ} {h : List Happening}
    (hi : Accounts job spawned shared calls s h) {i : Nat} {w w' : Worker} {core' : Core σ}
    (hw : s.workers[i]? = some w) (hstep : workerStep job i w s.core = some (w', core')) :
    Accounts job spawned shared calls { s with core := core', workers := s.workers.set i w' }
      (h ++ workerHappening job i w s.core) := by
  have hlt : i < s.workers.length := (List.getElem?_eq_some_iff.1 hw).1
  have he := hi.workerEffect hq hw hstep
  obtain ⟨sent, houtcomes, hsent⟩ := he.sends
  have hset (m : Worker → Nat) :
      total m (s.workers.set i w') + m w = total m s.workers + m w' := total_set m w' hw
  constructor
  case queued =>
    rw [entered_append, taken_append, he.entered, List.append_nil, hi.queued, he.items,
      List.append_assoc]
  case closed => rw [he.closed, hi.closed, ends_append, he.ends, Nat.add_zero]
  case applies =>
    intro p
    have := hi.applies p
    have := hset (·.unapplied.countP p)
    have := congrArg (List.countP p) he.applies
    simp only [taken_append, applied_append, List.countP_append] at *
    omega
  case sends =>
    intro p
    have := hi.sends p
    have := hset (·.unsent.countP p)
    have := congrArg (List.countP p) hsent
    simp only [applications_append, List.map_append, List.countP_append, houtcomes,
      List.countP_reverse] at *
    omega
  case counts =>
    have := hi.counts
    have := hset Worker.uncounted
    have := he.counts
    simp only [applications_append, List.length_append] at *
    omega
  case tallies =>
    have := hi.tallies
    have := hset Worker.untallied
    have := he.tallies
    simp only [applications_append, List.length_append] at *
    omega
  case tasks => rw [he.tasks_length, hi.tasks, List.length_set]
  case workers => rw [List.length_set, hi.workers]
  case serial => exact applications_append .. ▸ hi.serial.append he.serial
  case alive =>
    intro v hv
    rcases List.mem_or_eq_of_mem_set hv with hv | rfl
    · exact hi.alive v hv
    · exact he.alive
  case orderly =>
    intro v hv
    rcases List.mem_or_eq_of_mem_set hv with hv | rfl
    · exact hi.orderly v hv
    · exact he.orderly
  case left =>
    intro j v hj hv hleft
    -- what was empty stays so, since a worker only takes from the queue
    have keep (hend : s.core.queue.items = [] ∧ s.core.queue.closed = true) :
        core'.queue.items = [] ∧ core'.queue.closed = true :=
      ⟨(List.append_eq_nil_iff.1 (he.items.symm.trans hend.1)).2, he.closed.trans hend.2⟩
    by_cases hij : i = j
    · subst hij
      rw [List.getElem?_set_self hlt, Option.some.injEq] at hv
      subst hv
      rcases he.left hleft with hleft | hend
      · exact keep (hi.left i w hj hw hleft)
      · exact keep hend
    · rw [List.getElem?_set_ne hij] at hv
      exact keep (hi.left j v hj hv hleft)
  case submitted =>
    rw [entered_append, he.entered, List.append_nil, he.submitted]
    exact hi.submitted
  case once =>
    have := hi.once
    simp only [ends_append, he.ends, Nat.add_zero, Core.open, he.accepting] at *
    exact this
  case shutdowns => exact fun ha => hi.shutdowns (he.accepting ▸ ha)
  case follows => exact hi.follows
  case accepts =>
    intro p
    rw [entered_append, he.entered, List.append_nil]
    exact hi.accepts p

/-- **Every step keeps the accounts.** -/
theorem step {s s' : System σ} {h e : List Happening}
    (hi : Accounts job spawned shared calls s h) (hq : job.telemetry.Quiet) (hm : s.Moves job e s') :
    Accounts job spawned shared calls s' (h ++ e) := by
  cases hm with
  | none => rwa [List.append_nil]
  | caller hc hstep => exact hi.caller_step hc hstep
  | worker hw hstep => exact hi.worker_step hq hw hstep

theorem steps {s : System σ} {h : List Happening}
    (hi : Accounts job spawned shared calls s h) (hq : job.telemetry.Quiet) (schedule : List Actor) :
    Accounts job spawned shared calls (s.run job schedule) (h ++ s.history job schedule) :=
  System.run_induction (P := Accounts job spawned shared calls)
    (fun hm hi => hi.step hq hm) hi schedule

/-- **The accounts hold at every moment**, whatever the schedule. -/
theorem run (hq : job.telemetry.Quiet) (hs : spawned ≠ []) (metrics : Metrics.Store)
    (schedule : List Actor) :
    Accounts job spawned shared calls
      ((System.spawn spawned shared metrics calls).run job schedule)
      ((System.spawn spawned shared metrics calls).history job schedule) := by
  simpa using (start job hs shared metrics calls).steps hq schedule

/-- What holds at the start and is kept by every step of a pool whose accounts are in order holds at
every moment. -/
theorem run_with {P : System σ → List Happening → Prop} (hq : job.telemetry.Quiet)
    (hs : spawned ≠ []) (metrics : Metrics.Store)
    (hstart : P (System.spawn spawned shared metrics calls) [])
    (hstep : ∀ {s h e s'}, s.Moves job e s' → Accounts job spawned shared calls s h → P s h →
      P s' (h ++ e)) (schedule : List Actor) :
    P ((System.spawn spawned shared metrics calls).run job schedule)
      ((System.spawn spawned shared metrics calls).history job schedule) := by
  have hrun := System.run_induction
    (P := fun s h => Accounts job spawned shared calls s h ∧ P s h)
    (fun hm hi => ⟨hi.1.step hq hm, hstep hm hi.1 hi.2⟩)
    ⟨start job hs shared metrics calls, hstart⟩ schedule
  simpa using hrun.2

end Accounts

end FilteredChunks.Pool
