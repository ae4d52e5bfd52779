import FilteredChunks.Proofs.Pool.InOrder

/-!
# A pool without interleaving is a run of its steps

`finishCaller` and `drainWorker` take the steps of one participant until it can take no more; here they
are found again as schedules in which only that participant has a turn.  So what holds of every
schedule holds of a pool whose requests are served at once and whose workers drain the queue one after
the other.
-/

namespace FilteredChunks.Pool

variable {σ : Type}

namespace System

theorem run_append (job : Job σ) (s : System σ) (xs ys : List Actor) :
    s.run job (xs ++ ys) = (s.run job xs).run job ys := List.foldl_append

/-- Some schedule leads from one state of a pool to another. -/
def Reaches (job : Job σ) (s s' : System σ) : Prop := ∃ schedule, s.run job schedule = s'

theorem Reaches.refl (job : Job σ) (s : System σ) : s.Reaches job s := ⟨[], rfl⟩

theorem Reaches.trans {job : Job σ} {s t u : System σ} (hst : s.Reaches job t)
    (htu : t.Reaches job u) : s.Reaches job u := by
  obtain ⟨xs, rfl⟩ := hst
  obtain ⟨ys, rfl⟩ := htu
  exact ⟨xs ++ ys, run_append job s xs ys⟩

theorem Reaches.step (job : Job σ) (s : System σ) (actor : Actor) :
    s.Reaches job (s.step job actor) := ⟨[actor], rfl⟩

end System

/-! ### Callers -/

/-- The caller with answers given before and requests that come later. -/
def Caller.amid (c : Caller) (before : List (Except FilterError Unit)) (later : List Call) : Caller :=
  ⟨c.phase, c.calls ++ later, before ++ c.answers⟩

/-- What a caller does next depends neither on the answers before nor on later requests. -/
theorem callerStep_amid {c c' : Caller} {core core' : Core σ}
    (h : callerStep c core = some (c', core')) (before : List (Except FilterError Unit))
    (later : List Call) :
    callerStep (c.amid before later) core = some (c'.amid before later, core') := by
  obtain ⟨phase, calls, answers⟩ := c
  cases phase with
  | idle =>
    cases calls with
    | nil => cases h
    | cons call calls =>
      cases call <;>
      · simp only [callerStep, beginCall, Caller.amid, List.cons_append] at h ⊢
        split at h
        · next ha =>
          cases h
          rw [if_pos ha]
        · next ha =>
          cases h
          rw [if_neg ha]
          simp [Caller.answer]
  | admitted chunk =>
    cases h
    rfl
  | counted chunk =>
    simp only [callerStep, Caller.amid] at h ⊢
    split at h
    · cases h
      simp
    · cases h
      simp
  | refused chunk =>
    cases h
    simp [callerStep, Caller.amid, Caller.answer]
  | closing =>
    cases h
    rfl
  | reporting updates =>
    cases updates with
    | nil =>
      cases h
      simp [callerStep, Caller.amid, Caller.answer]
    | cons update updates =>
      cases h
      rfl

theorem step_caller_amid (job : Job σ) {c c' : Caller} {core core' : Core σ}
    (h : callerStep c core = some (c', core')) (before : List (Except FilterError Unit))
    (later : List Call) (workers : List Worker) :
    System.step job ⟨core, [c.amid before later], workers⟩ (.caller 0) =
      ⟨core', [c'.amid before later], workers⟩ := by
  simp only [System.step, List.getElem?_cons_zero, Option.bind_some, callerStep_amid h,
    List.set_cons_zero]

theorem reaches_finishCaller (job : Job σ) (c : Caller) (core : Core σ)
    (before : List (Except FilterError Unit)) (later : List Call) (workers : List Worker) :
    System.Reaches job ⟨core, [c.amid before later], workers⟩
      ⟨(finishCaller c core).2, [(finishCaller c core).1.amid before later], workers⟩ := by
  fun_induction finishCaller c core with
  | case1 c core h => exact .refl job _
  | case2 c core c' core' h _ ih =>
    refine .trans ?_ ih
    rw [← step_caller_amid job h]
    exact .step job _ _

theorem callerStep_finishCaller (c : Caller) (core : Core σ) :
    callerStep (finishCaller c core).1 (finishCaller c core).2 = none := by
  fun_induction finishCaller c core with
  | case1 c core h => exact h
  | case2 c core c' core' h _ ih => exact ih

theorem reaches_serve (job : Job σ) (call : Call) (core : Core σ)
    (before : List (Except FilterError Unit)) (later : List Call) (workers : List Worker) :
    ∃ answers, (serve call core).1 = answers.head?.getD (.ok ()) ∧
      System.Reaches job ⟨core, [⟨.idle, call :: later, before⟩], workers⟩
        ⟨(serve call core).2, [⟨.idle, later, before ++ answers⟩], workers⟩ := by
  have hreaches := reaches_finishCaller job (.start [call]) core before later workers
  obtain ⟨hphase, hcalls⟩ := idle_of_callerStep (callerStep_finishCaller (.start [call]) core)
  have hfirst : (Caller.start [call]).amid before later = ⟨.idle, call :: later, before⟩ := by
    simp [Caller.amid, Caller.start]
  have hlast : (finishCaller (.start [call]) core).1.amid before later =
      ⟨.idle, later, before ++ (finishCaller (.start [call]) core).1.answers⟩ := by
    rw [Caller.amid, hphase, hcalls, List.nil_append]
  rw [hfirst, hlast] at hreaches
  exact ⟨_, rfl, hreaches⟩

/-! ### Workers -/

theorem step_worker_append (job : Job σ) (callers : List Caller) (pre post : List Worker) {w : Worker}
    {core : Core σ} (h : w.isReady core.queue = true) :
    System.step job ⟨core, callers, pre ++ w :: post⟩ (.worker pre.length) =
      ⟨(advance job pre.length w core).2, callers, pre ++ (advance job pre.length w core).1 :: post⟩ := by
  simp [System.step, workerStep, h]

theorem reaches_drainWorker (job : Job σ) (callers : List Caller) (pre post : List Worker) (w : Worker)
    (core : Core σ) :
    System.Reaches job ⟨core, callers, pre ++ w :: post⟩
      ⟨(drainWorker job pre.length w core).2, callers,
        pre ++ (drainWorker job pre.length w core).1 :: post⟩ := by
  fun_induction drainWorker job pre.length w core with
  | case1 w core h _ next ih =>
    refine .trans ?_ ih
    rw [← step_worker_append job callers pre post h]
    exact .step job _ _
  | case2 w core h => exact .refl job _

theorem reaches_drainWorkers (job : Job σ) (callers : List Caller) (pre ws : List Worker)
    (core : Core σ) :
    System.Reaches job ⟨core, callers, pre ++ ws⟩
      ⟨(drainWorkers job pre.length ws core).2, callers,
        pre ++ (drainWorkers job pre.length ws core).1⟩ := by
  induction ws generalizing pre core with
  | nil => exact .refl job _
  | cons w ws ih =>
    refine (reaches_drainWorker job callers pre ws w core).trans ?_
    have := ih (pre ++ [(drainWorker job pre.length w core).1]) (drainWorker job pre.length w core).2
    simpa [drainWorkers] using this

theorem closed_advance (job : Job σ) (worker : Nat) (w : Worker) (core : Core σ) :
    (advance job worker w core).2.queue.closed = core.queue.closed := by
  cases w with
  | waiting =>
    simp only [advance]
    split
    · next htake => exact WorkQueue.closed_of_take? htake
    · next htake => exact WorkQueue.closed_of_take? htake
    · rfl
  | busy chunk duties =>
    cases duties with
    | nil => rfl
    | cons duty rest => exact congrArg WorkQueue.closed (busyStep_queue job worker chunk duty rest core)
  | leaving duties =>
    cases duties with
    | nil => rfl
    | cons duty rest => exact congrArg WorkQueue.closed (leavingStep_queue job worker duty rest core)
  | gone => rfl
  | dead report => rfl

theorem closed_drainWorker (job : Job σ) (worker : Nat) (w : Worker) (core : Core σ) :
    (drainWorker job worker w core).2.queue.closed = core.queue.closed := by
  fun_induction drainWorker job worker w core with
  | case1 w core h _ next ih => exact ih.trans (closed_advance job worker w core)
  | case2 w core h => rfl

theorem isReady_drainWorker (job : Job σ) (worker : Nat) (w : Worker) (core : Core σ) :
    (drainWorker job worker w core).1.isReady (drainWorker job worker w core).2.queue = false := by
  fun_induction drainWorker job worker w core with
  | case1 w core h _ next ih => exact ih
  | case2 w core h => simpa using h

theorem isOver_of_isReady {queue : WorkQueue Chunk} {w : Worker} (hc : queue.closed = true)
    (h : w.isReady queue = false) : w.isOver = true := by
  cases w with
  | waiting => simp [Worker.isReady, hc] at h
  | busy chunk duties => cases h
  | leaving duties => cases h
  | gone => rfl
  | dead report => rfl

theorem isOver_drainWorkers (job : Job σ) (first : Nat) (ws : List Worker) {core : Core σ}
    (hc : core.queue.closed = true) : ∀ w ∈ (drainWorkers job first ws core).1, w.isOver = true := by
  induction ws generalizing first core with
  | nil => exact fun w hw => (List.not_mem_nil hw).elim
  | cons v ws ih =>
    have hc' := (closed_drainWorker job first v core).trans hc
    intro w hw
    rcases List.mem_cons.1 hw with rfl | hw
    · exact isOver_of_isReady hc' (isReady_drainWorker job first v core)
    · exact ih (first + 1) hc' w hw

/-! ### Whole pools -/

/-- A pool with a single caller that has yet to submit some chunks and to shut it down. -/
def withCaller (pool : Pool σ) (chunks : List Chunk) (answers : List (Except FilterError Unit)) :
    System σ :=
  ⟨pool.core, [⟨.idle, submitThenClose chunks, answers⟩], pool.workers⟩

theorem reaches_submit (pool : Pool σ) (chunk : Chunk) (chunks : List Chunk)
    (answers : List (Except FilterError Unit)) :
    ∃ answers', (pool.submit chunk).1 = answers'.head?.getD (.ok ()) ∧
      (withCaller pool (chunk :: chunks) answers).Reaches pool.job
        (withCaller (pool.submit chunk).2 chunks (answers ++ answers')) :=
  reaches_serve pool.job (.submit chunk) pool.core answers (submitThenClose chunks) pool.workers

/-- Closing a pool is a run to a state in which its caller is done, and in which all workers are over
if the queue got closed. -/
theorem reaches_close (pool : Pool σ) (answers : List (Except FilterError Unit)) :
    ∃ caller : Caller, caller.phase = .idle ∧ caller.calls = [] ∧
      (withCaller pool [] answers).Reaches pool.job ⟨pool.shutdown.core, [caller], pool.workers⟩ ∧
      (withCaller pool [] answers).Reaches pool.job ⟨pool.close.2.core, [caller], pool.close.2.workers⟩ ∧
      (pool.shutdown.core.queue.closed = true →
        System.IsClosed ⟨pool.close.2.core, [caller], pool.close.2.workers⟩) := by
  obtain ⟨answers', -, hshutdown⟩ :=
    reaches_serve pool.job .shutdown pool.core answers [] pool.workers
  refine ⟨⟨.idle, [], answers ++ answers'⟩, rfl, rfl, hshutdown, hshutdown.trans ?_, fun hc => ?_⟩
  · exact reaches_drainWorkers pool.job _ [] pool.workers _
  · refine ⟨fun c hmem => ?_, isOver_drainWorkers pool.job 0 pool.workers hc⟩
    rw [List.mem_singleton.1 hmem]
    exact ⟨rfl, rfl⟩

end FilteredChunks.Pool
