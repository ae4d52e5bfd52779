import FilteredChunks.Proofs.Pool.Summary

/-!
# Order in a pool

A single caller that submits chunks and then shuts the pool down has all of them accepted, in its order
(`entered_of_closed`).  A single worker applies the function to them and sends the outcomes in the
order in which they entered the queue (`sent_of_closed`).
-/

namespace FilteredChunks.Pool

variable {σ : Type}

theorem eq_of_getElem?_singleton {α : Type} {x y : α} {i : Nat} (h : [x][i]? = some y) :
    i = 0 ∧ x = y := by
  cases i with
  | zero => exact ⟨rfl, Option.some.inj h⟩
  | succ i => simp at h

/-! ### A single caller -/

/-- The requests of a caller that submits chunks and then shuts the pool down. -/
def submitThenClose (chunks : List Chunk) : List Call := chunks.map .submit ++ [.shutdown]

/-- The pool is open, and a caller has yet to submit `rest`. -/
def Caller.HasYet (c : Caller) (core : Core σ) (rest : List Chunk) : Prop :=
  c.calls = submitThenClose rest ∧ core.accepting = true ∧ core.queue.closed = false

/-- A caller is to submit `chunks` and then to shut the pool down, those of `done` are in the queue, and
nothing was refused. -/
structure Caller.Submits (c : Caller) (core : Core σ) (chunks done : List Chunk) : Prop where
  answers : ∀ answer ∈ c.answers, answer = .ok ()
  rest : match c.phase with
    | .idle | .reporting _ =>
      (∃ rest, chunks = done ++ rest ∧ c.HasYet core rest) ∨ chunks = done ∧ c.calls = []
    | .admitted chunk | .counted chunk => ∃ rest, chunks = done ++ chunk :: rest ∧ c.HasYet core rest
    | .closing => chunks = done ∧ c.calls = []
    | .refused _ => False

theorem Caller.Submits.step {c c' : Caller} {core core' : Core σ} {chunks done : List Chunk}
    (h : c.Submits core chunks done) (hstep : callerStep c core = some (c', core')) :
    c'.Submits core' chunks (done ++ entered (callerHappening c core)) := by
  obtain ⟨phase, calls, answers⟩ := c
  obtain ⟨hanswers, hrest⟩ := h
  have hanswers' : ∀ answer ∈ answers ++ [.ok ()], answer = .ok () := by
    intro answer hmem
    rcases List.mem_append.1 hmem with hmem | hmem
    · exact hanswers answer hmem
    · exact List.mem_singleton.1 hmem
  cases phase with
  | idle =>
    rcases hrest with ⟨rest, hchunks, hcalls, haccepting, hclosed⟩ | ⟨hchunks, hcalls⟩
    · simp only at hcalls
      subst hcalls
      cases rest with
      | nil =>
        simp only [callerStep, submitThenClose, List.map_nil, List.nil_append, beginCall, haccepting,
          if_true, Option.some.injEq, Prod.mk.injEq] at hstep
        obtain ⟨rfl, rfl⟩ := hstep
        exact ⟨hanswers, hchunks, rfl⟩
      | cons chunk rest =>
        simp only [callerStep, submitThenClose, List.map_cons, List.cons_append, beginCall,
          haccepting, if_true, Option.some.injEq, Prod.mk.injEq] at hstep
        obtain ⟨rfl, rfl⟩ := hstep
        exact ⟨hanswers, rest, by simpa [callerHappening] using hchunks, rfl, haccepting, hclosed⟩
    · simp only at hcalls
      subst hcalls
      cases hstep
  | admitted chunk =>
    obtain ⟨rest, hchunks, hyet⟩ := hrest
    cases hstep
    exact ⟨hanswers, rest, by simpa [callerHappening] using hchunks, hyet⟩
  | counted chunk =>
    obtain ⟨rest, hchunks, hcalls, haccepting, hclosed⟩ := hrest
    simp only [callerStep, WorkQueue.enqueue, hclosed, Bool.false_eq_true, if_false,
      Option.some.injEq, Prod.mk.injEq] at hstep
    obtain ⟨rfl, rfl⟩ := hstep
    refine ⟨hanswers, .inl ⟨rest, ?_, hcalls, haccepting, rfl⟩⟩
    simpa [callerHappening, hclosed, entered] using hchunks
  | refused chunk => exact hrest.elim
  | closing =>
    obtain ⟨hchunks, hcalls⟩ := hrest
    cases hstep
    exact ⟨hanswers, .inr ⟨by simpa [callerHappening, entered] using hchunks, hcalls⟩⟩
  | reporting updates =>
    have hdone : done ++ entered (callerHappening ⟨.reporting updates, calls, answers⟩ core) = done :=
      List.append_nil done
    rw [hdone]
    cases updates with
    | nil =>
      cases hstep
      exact ⟨hanswers', hrest⟩
    | cons update updates =>
      cases hstep
      exact ⟨hanswers, hrest⟩

theorem Caller.Submits.of_core {c : Caller} {core core' : Core σ} {chunks done : List Chunk}
    (h : c.Submits core chunks done) (haccepting : core'.accepting = core.accepting)
    (hclosed : core'.queue.closed = core.queue.closed) : c.Submits core' chunks done := by
  have hyet (rest : List Chunk) (hr : c.HasYet core rest) : c.HasYet core' rest :=
    ⟨hr.1, haccepting.trans hr.2.1, hclosed.trans hr.2.2⟩
  obtain ⟨phase, calls, answers⟩ := c
  obtain ⟨hanswers, hrest⟩ := h
  refine ⟨hanswers, ?_⟩
  cases phase with
  | idle | reporting updates =>
    rcases hrest with ⟨rest, hchunks, hr⟩ | hdone
    · exact .inl ⟨rest, hchunks, hyet rest hr⟩
    · exact .inr hdone
  | admitted chunk | counted chunk =>
    obtain ⟨rest, hchunks, hr⟩ := hrest
    exact ⟨rest, hchunks, hyet rest hr⟩
  | refused chunk => exact hrest
  | closing => exact hrest

/-- A pool whose only caller submits `chunks`. -/
def SoleCaller (chunks : List Chunk) (s : System σ) (h : List Happening) : Prop :=
  ∃ c, s.callers = [c] ∧ c.Submits s.core chunks (entered h)

theorem soleCaller_spawn (spawned : List Bool) (shared : σ) (metrics : Metrics.Store)
    (chunks : List Chunk) :
    SoleCaller chunks (System.spawn spawned shared metrics [submitThenClose chunks]) [] :=
  ⟨_, rfl, fun _ hmem => (List.not_mem_nil hmem).elim, .inl ⟨chunks, rfl, rfl, rfl, rfl⟩⟩

variable {job : Job σ} {spawned : List Bool} {shared : σ} {calls : List (List Call)}

theorem SoleCaller.step {chunks : List Chunk} {s s' : System σ} {h e : List Happening}
    (hc : SoleCaller chunks s h) (hq : job.telemetry.Quiet) (hm : s.Moves job e s')
    (hi : Accounts job spawned shared calls s h) : SoleCaller chunks s' (h ++ e) := by
  obtain ⟨c, hcallers, hsubmits⟩ := hc
  cases hm with
  | none => exact ⟨c, hcallers, by rwa [List.append_nil]⟩
  | @caller i c₀ c' core' hc₀ hstep =>
    rw [hcallers] at hc₀
    obtain ⟨rfl, rfl⟩ := eq_of_getElem?_singleton hc₀
    refine ⟨c', by simp [hcallers], ?_⟩
    rw [entered_append]
    exact hsubmits.step hstep
  | worker hw hstep =>
    have he := hi.workerEffect hq hw hstep
    refine ⟨c, hcallers, ?_⟩
    rw [entered_append, he.entered, List.append_nil]
    exact hsubmits.of_core he.accepting he.closed

theorem soleCaller_run (hq : job.telemetry.Quiet) (hs : spawned ≠ []) (metrics : Metrics.Store)
    (chunks : List Chunk) (schedule : List Actor) :
    SoleCaller chunks ((System.spawn spawned shared metrics [submitThenClose chunks]).run job schedule)
      ((System.spawn spawned shared metrics [submitThenClose chunks]).history job schedule) :=
  Accounts.run_with hq hs metrics (soleCaller_spawn spawned shared metrics chunks)
    (fun hm hi hc => hc.step hq hm hi) schedule

/-- When a pool with a single caller is closed, all that the caller submitted has entered the queue,
in order, and every answer was good. -/
theorem entered_of_closed {chunks : List Chunk} {s : System σ} {h : List Happening}
    (hs : SoleCaller chunks s h) (hc : s.IsClosed) :
    entered h = chunks ∧ ∀ c ∈ s.callers, ∀ answer ∈ c.answers, answer = .ok () := by
  obtain ⟨c, hcallers, hanswers, hrest⟩ := hs
  obtain ⟨hphase, hcalls⟩ := hc.callers c (by simp [hcallers])
  rw [hphase] at hrest
  refine ⟨?_, by simpa [hcallers] using hanswers⟩
  rcases hrest with ⟨rest, -, hyet⟩ | ⟨hchunks, -⟩
  · have := hcalls.symm.trans hyet.1
    simp [submitThenClose] at this
  · exact hchunks.symm

/-! ### A single worker -/

/-- A pool with a single worker: the function is applied, and the outcomes are sent, in the order in
which the chunks were taken. -/
def SoleWorker (s : System σ) (h : List Happening) : Prop :=
  ∃ w, s.workers = [w] ∧ taken h = applied h ++ w.unapplied ∧
    (applications h).map outcomeAt = s.core.outcomes.reverse ++ w.unsent

theorem soleWorker_spawn (shared : σ) (metrics : Metrics.Store) (calls : List (List Call)) :
    SoleWorker (System.spawn [true] shared metrics calls) [] :=
  ⟨.waiting, rfl, rfl, rfl⟩

theorem SoleWorker.step {s s' : System σ} {h e : List Happening} (hw : SoleWorker s h)
    (hq : job.telemetry.Quiet) (hm : s.Moves job e s') (hi : Accounts job spawned shared calls s h) :
    SoleWorker s' (h ++ e) := by
  obtain ⟨w, hworkers, htaken, houtcomes⟩ := hw
  cases hm with
  | none => exact ⟨w, hworkers, by simpa using htaken, by simpa using houtcomes⟩
  | caller hc hstep =>
    have he := hi.callerEffect hc hstep
    refine ⟨w, hworkers, ?_, ?_⟩
    · simpa [he.taken, applied, he.applications] using htaken
    · simpa [he.applications, he.outcomes] using houtcomes
  | @worker i w₀ w' core' hw₀ hstep =>
    have he := hi.workerEffect hq hw₀ hstep
    rw [hworkers] at hw₀
    obtain ⟨rfl, rfl⟩ := eq_of_getElem?_singleton hw₀
    obtain ⟨sent, hsent, hunsent⟩ := he.sends
    refine ⟨w', by simp [hworkers], ?_, ?_⟩
    · rw [taken_append, htaken, List.append_assoc, he.applies, applied_append, List.append_assoc]
    · simp only [applications_append, List.map_append, houtcomes, List.append_assoc, hunsent, hsent,
        List.reverse_append, List.reverse_reverse]

theorem soleWorker_run (hq : job.telemetry.Quiet) (metrics : Metrics.Store)
    (calls : List (List Call)) (schedule : List Actor) :
    SoleWorker ((System.spawn [true] shared metrics calls).run job schedule)
      ((System.spawn [true] shared metrics calls).history job schedule) :=
  Accounts.run_with hq (by simp) metrics (soleWorker_spawn shared metrics calls)
    (fun hm hi hw => hw.step hq hm hi) schedule

/-- When a pool with a single worker is closed, the outcomes were sent in the order of the
applications, and the function was applied to the chunks in the order in which they were taken. -/
theorem sent_of_closed {s : System σ} {h : List Happening} (hs : SoleWorker s h)
    (hi : Accounts job spawned shared calls s h) (hc : s.IsClosed) :
    applied h = taken h ∧ s.core.outcomes.reverse = (applications h).map outcomeAt := by
  obtain ⟨w, hworkers, htaken, houtcomes⟩ := hs
  have hgone : w = .gone := hi.gone hc w (by simp [hworkers])
  subst hgone
  exact ⟨by simpa [Worker.unapplied] using htaken.symm, by simpa [Worker.unsent] using houtcomes.symm⟩

end FilteredChunks.Pool
