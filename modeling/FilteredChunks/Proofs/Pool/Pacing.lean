import FilteredChunks.Proofs.Pool.Ledger

/-!
# Starts before ends

Of each chunk a worker records first that it is started and later that it is done.  A measure of the
one and a measure of the other (`Precedes`) run apart by no more than what the workers owe: `Steady`
says of every worker that it owes of the early measure at most what it owes of the late one, now and
after any number of its duties, and at most one of either.

Hence what is recorded of ends is never more than what is recorded of starts (`Ledger.le_of_precedes`),
and less by at most one for each worker (`Ledger.le_add_workers`).
-/

namespace FilteredChunks.Pool

open Metrics (Update)

variable {σ : Type}

/-! ### Measures of every chunk alike -/

/-- A measure of what is recorded of every chunk, whatever its outcome, by the worker that has it. -/
structure Uniform (measure : Update → Nat) : Prop extends Booked measure where
  finished : measure (.count Metrics.tasksFinished 1) = 0
  failed : measure (.count Metrics.tasksFailed 1) = 0
  exit : exitCost measure = 0
  enqueued : measure (.count Metrics.queueEnqueued 1) = 0
  closed : measure (.count Metrics.queueClosed 1) = 0

/-- One measure is of the start of a chunk, the other of its end, and they come to the same. -/
structure Precedes (early late : Update → Nat) : Prop where
  uniform_early : Uniform early
  uniform_late : Uniform late
  early_end : endCost early = 0
  late_start : startCost late = 0
  same : startCost early = endCost late

namespace Uniform

variable {measure : Update → Nat}

theorem result (h : Uniform measure) (r : Except FilterError ChunkWrite) : resultCost measure r = 0 := by
  cases r with
  | ok write => exact h.finished
  | error error => exact h.failed

theorem brings_callerHappening (h : Uniform measure) (c : Caller) (core : Core σ) :
    total (Happening.brings measure) (callerHappening c core) = 0 := by
  unfold callerHappening
  split
  · split
    · rfl
    · exact h.enqueued
  · exact h.closed
  · rfl

theorem total_brings (h : Uniform measure) (history : List Happening) :
    total (Happening.brings measure) history =
      (taken history).length * (startCost measure + endCost measure) := by
  rw [Pool.total_brings, h.finished, h.failed, h.enqueued, h.closed]
  omega

end Uniform

/-! ### Paced duties -/

/-- After any number of the duties no more is owed in the first way than in the second. -/
def Paced (first second : Duty → Nat) : List Duty → Prop
  | [] => True
  | duty :: rest => total first (duty :: rest) ≤ total second (duty :: rest) ∧ Paced first second rest

theorem Paced.total_le {first second : Duty → Nat} {duties : List Duty}
    (h : Paced first second duties) : total first duties ≤ total second duties := by
  cases duties with
  | nil => exact Nat.le_refl 0
  | cons duty rest => exact h.1

theorem Paced.cons {first second : Duty → Nat} {duty : Duty} {rest : List Duty}
    (h : Paced first second rest) (hduty : first duty ≤ second duty) :
    Paced first second (duty :: rest) :=
  ⟨Nat.add_le_add hduty h.total_le, h⟩

/-- A worker owes of the early measure no more than of the late one, now and after any number of its
duties. -/
def Worker.Paced (early late : Update → Nat) : Worker → Prop
  | busy _ duties => Pool.Paced (Duty.owes early) (Duty.owes late) duties
  | leaving duties => Pool.Paced (Duty.owesLast early) (Duty.owesLast late) duties
  | _ => True

theorem Worker.Paced.owes_le {early late : Update → Nat} (hp : Precedes early late) {w : Worker}
    (h : w.Paced early late) : w.owes early ≤ w.owes late := by
  have hearly := hp.uniform_early.exit
  have hlate := hp.uniform_late.exit
  cases w with
  | waiting => exact Nat.le_of_eq (hearly.trans hlate.symm)
  | busy chunk duties =>
    simp only [Worker.owes, hearly, hlate]
    exact Pool.Paced.total_le h
  | leaving duties => exact Pool.Paced.total_le h
  | gone => exact Nat.le_refl 0
  | dead report => exact Nat.le_refl 0

section Step

variable {apply : Nat → Chunk → σ → Applied σ} {latency : Hook → Nat} {early late : Update → Nat}

theorem paced_firstDuties (hp : Precedes early late) :
    Paced (Duty.owes early) (Duty.owes late) firstDuties := by
  have hsame := hp.same
  have hend := hp.early_end
  refine ⟨?_, ?_, ?_, trivial⟩
  all_goals
    simp only [total_cons, total_nil, Duty.owes]
    omega

theorem paced_started (hp : Precedes early late) {rest : List Duty}
    (h : Paced (Duty.owes early) (Duty.owes late) (.tellStarted :: rest)) :
    Paced (Duty.owes early) (Duty.owes late)
      (.record (.count Metrics.tasksStarted 1) :: .record (.raise Metrics.activeWorkers 1) :: rest) := by
  have hboth := h.1
  have hstart := hp.late_start
  simp only [total_cons, Duty.owes, startCost] at hboth hstart
  refine ⟨?_, ?_, h.2⟩
  all_goals
    simp only [total_cons, Duty.owes]
    omega

theorem busyStep_paced (hp : Precedes early late) {worker : Nat} {chunk : Chunk} {duty : Duty}
    {rest : List Duty} {core : Core σ} (h : (Worker.busy chunk (duty :: rest)).Paced early late) :
    (busyStep ⟨apply, .timed latency⟩ worker chunk duty rest core).1.Paced early late := by
  have hrest : Paced (Duty.owes early) (Duty.owes late) rest := h.2
  cases duty with
  | tellDepth =>
    simp only [busyStep, callHook_timed]
    refine hrest.cons ?_
    simp only [Duty.owes, hp.uniform_early.depth, hp.uniform_late.depth, Nat.le_refl]
  | tellStarted =>
    simp only [busyStep, callHook_timed]
    exact paced_started hp h
  | tellEnded result =>
    have hresult := hp.uniform_early.result result
    have htimeless := hp.uniform_early.timeless
    have hend := hp.early_end
    unfold endCost at hend
    cases result with
    | ok write | error error =>
      simp only [busyStep, callHook_timed]
      simp only [resultCost] at hresult
      refine .cons (.cons (.cons (.cons hrest ?_) ?_) ?_) ?_
      all_goals
        simp only [Duty.owes, htimeless]
        omega
  | apply =>
    refine .cons (.cons (.cons (.cons hrest (Nat.le_refl 0)) (Nat.le_refl 0)) (Nat.le_refl 0)) ?_
    simp only [Duty.owes, hp.uniform_early.result, hp.early_end]
    exact Nat.zero_le _
  | _ => exact hrest

theorem leavingStep_paced (hp : Precedes early late) {worker : Nat} {duty : Duty}
    {rest : List Duty} {core : Core σ} (h : (Worker.leaving (duty :: rest)).Paced early late) :
    (leavingStep ⟨apply, .timed latency⟩ worker duty rest core).1.Paced early late := by
  have hrest : Paced (Duty.owesLast early) (Duty.owesLast late) rest := h.2
  cases duty with
  | tellExited =>
    simp only [leavingStep, callHook_timed]
    refine hrest.cons ?_
    have hexit := hp.uniform_early.exit
    unfold exitCost at hexit
    simp only [Duty.owesLast, hexit]
    exact Nat.zero_le _
  | _ => exact hrest

theorem workerStep_paced (hp : Precedes early late) {worker : Nat} {w w' : Worker}
    {core core' : Core σ} (h : workerStep ⟨apply, .timed latency⟩ worker w core = some (w', core'))
    (hw : w.Paced early late) : w'.Paced early late := by
  simp only [workerStep] at h
  split at h
  · simp only [Option.some.injEq, Prod.ext_iff] at h
    obtain ⟨rfl, -⟩ := h
    cases w with
    | waiting =>
      rcases htake : core.queue.take? with - | ⟨chunk | -, queue⟩
      · simp only [advance, htake]
        trivial
      · simp only [advance, htake]
        exact paced_firstDuties hp
      · simp only [advance, htake]
        have hnone : Paced (Duty.owesLast early) (Duty.owesLast late) [] := trivial
        exact hnone.cons (Nat.le_of_eq (hp.uniform_early.exit.trans hp.uniform_late.exit.symm))
    | busy chunk duties =>
      cases duties with
      | nil => trivial
      | cons duty rest => exact busyStep_paced hp hw
    | leaving duties =>
      cases duties with
      | nil => trivial
      | cons duty rest => exact leavingStep_paced hp hw
    | gone => exact hw
    | dead report => exact hw
  · cases h

end Step

/-! ### Steady pools -/

/-- What every participant of a pool keeps to, at every moment. -/
structure Steady (s : System σ) : Prop where
  reports : ∀ measure, Uniform measure → ∀ c ∈ s.callers, c.owes measure = 0
  paced : ∀ early late, Precedes early late → ∀ w ∈ s.workers, w.Paced early late
  single : ∀ measure, Uniform measure → startCost measure + endCost measure ≤ 1 →
    ∀ w ∈ s.workers, w.owes measure ≤ 1

namespace Steady

variable {apply : Nat → Chunk → σ → Applied σ} {latency : Hook → Nat}

theorem start (workers : Nat) (shared : σ) (metrics : Metrics.Store) (calls : List (List Call)) :
    Steady (.start workers shared metrics calls) where
  reports measure _ := List.forall_mem_map.2 fun _ _ => rfl
  paced early late _ w hw := by
    rw [List.eq_of_mem_replicate hw]
    trivial
  single measure hm _ w hw := by
    rw [List.eq_of_mem_replicate hw]
    exact Nat.le_trans (Nat.le_of_eq hm.exit) (Nat.zero_le 1)

theorem owes_add_brings {measure : Update → Nat} (hm : Uniform measure)
    (hone : startCost measure + endCost measure ≤ 1) (job : Job σ) (i : Nat) {w : Worker}
    (core : Core σ) (hw : w.owes measure ≤ 1) :
    w.owes measure + total (Happening.brings measure) (workerHappening job i w core) ≤ 1 := by
  cases w with
  | waiting =>
    have hexit := hm.exit
    rcases htake : core.queue.take? with - | ⟨chunk | -, queue⟩
    all_goals
      simp only [workerHappening, htake, Worker.owes, total_cons, total_nil, Happening.brings]
      omega
  | busy chunk duties =>
    rcases duties with - | ⟨duty, rest⟩
    · exact hw
    · cases duty with
      | apply =>
        have hresult := hm.result (outcomeOf chunk (job.apply i chunk core.shared).result)
        simpa [workerHappening, Happening.brings, hresult] using hw
      | _ => exact hw
  | leaving duties => exact hw
  | gone => exact hw
  | dead report => exact hw

theorem step (happly : LeavesBooks apply) {s s' : System σ} {e : List Happening}
    (hs : Steady s) (hm : s.Moves ⟨apply, .timed latency⟩ e s') : Steady s' := by
  cases hm with
  | none => exact hs
  | @caller i c c' core' hc hstep =>
    refine ⟨fun measure hm v hv => ?_, hs.paced, hs.single⟩
    rcases List.mem_or_eq_of_mem_set hv with hv | rfl
    · exact hs.reports measure hm v hv
    · have hbooks := (callerStep_books hstep).balance measure hm.toBooked
      have hnone := hm.brings_callerHappening c s.core
      have hbefore := hs.reports measure hm c (List.mem_of_getElem? hc)
      omega
  | @worker i w w' core' hw hstep =>
    have hmem : w ∈ s.workers := List.mem_of_getElem? hw
    refine ⟨hs.reports, fun early late hp v hv => ?_, fun measure hm hone v hv => ?_⟩
    · rcases List.mem_or_eq_of_mem_set hv with hv | rfl
      · exact hs.paced early late hp v hv
      · exact workerStep_paced hp hstep (hs.paced early late hp w hmem)
    · rcases List.mem_or_eq_of_mem_set hv with hv | rfl
      · exact hs.single measure hm hone v hv
      · have hbooks := (workerStep_books happly hstep).balance measure hm.toBooked
        have hbefore := owes_add_brings hm hone ⟨apply, .timed latency⟩ i s.core
          (hs.single measure hm hone w hmem)
        omega

/-- **A pool is steady at every moment**, whatever the schedule. -/
theorem run (happly : LeavesBooks apply) (latency : Hook → Nat) (workers : Nat) (shared : σ)
    (metrics : Metrics.Store) (calls : List (List Call)) (schedule : List Actor) :
    Steady ((System.start workers shared metrics calls).run ⟨apply, .timed latency⟩ schedule) :=
  System.run_induction (P := fun s _ => Steady s) (h := [])
    (fun hm hs => hs.step happly hm) (start workers shared metrics calls) schedule

end Steady

/-! ### Starts and ends in the books -/

namespace Ledger

variable {s : System σ} {h : List Happening} {updates : List Update} {early late : Update → Nat}

/-- Both measures come to the same, with what is owed of them. -/
theorem outstanding (hl : Ledger s h updates) (hs : Steady s) (hp : Precedes early late) :
    total early updates + total (Worker.owes early) s.workers =
      total late updates + total (Worker.owes late) s.workers := by
  have hnone {measure : Update → Nat} (hm : Uniform measure) :
      total (Caller.owes measure) s.callers = 0 := total_eq_zero (hs.reports measure hm)
  have hearly := hl.balance early hp.uniform_early.toBooked
  have hlate := hl.balance late hp.uniform_late.toBooked
  rw [hnone hp.uniform_early, hp.uniform_early.exit, hp.uniform_early.total_brings,
    hp.early_end] at hearly
  rw [hnone hp.uniform_late, hp.uniform_late.exit, hp.uniform_late.total_brings, hp.late_start,
    ← hp.same] at hlate
  simp only [Nat.add_zero, Nat.zero_add] at hearly hlate
  rw [hearly, hlate]

/-- **No more ends than starts are recorded.** -/
theorem le_of_precedes (hl : Ledger s h updates) (hs : Steady s) (hp : Precedes early late) :
    total late updates ≤ total early updates := by
  have hboth := hl.outstanding hs hp
  have howed : total (Worker.owes early) s.workers ≤ total (Worker.owes late) s.workers :=
    total_le_total fun w hw => (hs.paced early late hp w hw).owes_le hp
  omega

/-- **As many ends are recorded as starts**, but for at most one for each worker. -/
theorem le_add_workers (hl : Ledger s h updates) (hs : Steady s) (hp : Precedes early late)
    (hone : endCost late ≤ 1) : total early updates ≤ total late updates + s.workers.length := by
  have hboth := hl.outstanding hs hp
  have hsingle : startCost late + endCost late ≤ 1 := by rwa [hp.late_start, Nat.zero_add]
  have howed := total_le_length (hs.single late hp.uniform_late hsingle)
  omega

end Ledger

end FilteredChunks.Pool
