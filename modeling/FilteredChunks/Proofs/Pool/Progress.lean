import FilteredChunks.Proofs.Pool.Accounts

/-!
# Pools come to an end

No schedule keeps a pool from being closed if everyone gets a turn again and again: each step lowers a
measure of the pool (`step_eq_or_lower`), and until the pool is closed there is someone who can take
a step (`exists_lower`).  `closes_of_fair` puts the two together.
-/

namespace FilteredChunks.Pool

variable {σ : Type}

/-! ### Closed pools -/

/-- Whether a worker takes no more steps. -/
def Worker.isOver : Worker → Bool
  | gone | dead _ => true
  | _ => false

/-- All requests are answered and all workers are done. -/
structure System.IsClosed (s : System σ) : Prop where
  callers : ∀ c ∈ s.callers, c.phase = .idle ∧ c.calls = []
  workers : ∀ w ∈ s.workers, w.isOver = true

/-! ### The measure -/

/-- A bound on the steps that a caller has yet to take for its current request. -/
def CallPhase.cost : CallPhase → Nat
  | idle => 0
  | reporting updates => updates.length + 1
  | refused _ => 1
  | closing => 3
  | counted _ => 4
  | admitted _ => 5

/-- A bound on the steps that a caller has yet to take. -/
def Caller.cost (c : Caller) : Nat := 6 * c.calls.length + c.phase.cost

/-- One pool comes before another: the callers have less to do; or as much, and the workers are
nearer to their end. -/
def System.Lower (s' s : System σ) : Prop :=
  total Caller.cost s'.callers < total Caller.cost s.callers ∨
    total Caller.cost s'.callers = total Caller.cost s.callers ∧
  (s'.core.queue.length < s.core.queue.length ∨ s'.core.queue.length = s.core.queue.length ∧
  (total Worker.rank s'.workers < total Worker.rank s.workers ∨
    total Worker.rank s'.workers = total Worker.rank s.workers ∧
  (total Worker.weight s'.workers < total Worker.weight s.workers ∨
    total Worker.weight s'.workers = total Worker.weight s.workers ∧
  total (·.duties.length) s'.workers < total (·.duties.length) s.workers)))

theorem cost_of_callerStep {c c' : Caller} {core core' : Core σ}
    (h : callerStep c core = some (c', core')) : c'.cost < c.cost := by
  obtain ⟨phase, calls, answers⟩ := c
  cases phase with
  | idle =>
    simp only [callerStep, beginCall] at h
    split at h
    · cases h
    all_goals
      split at h <;> cases h <;>
        simp only [Caller.cost, Caller.answer, CallPhase.cost, List.length_cons] <;> omega
  | admitted chunk =>
    cases h
    simp [Caller.cost, CallPhase.cost]
  | counted chunk =>
    cases hc : core.queue.closed with
    | true =>
      simp only [callerStep, WorkQueue.enqueue, hc, if_true, Option.some.injEq, Prod.mk.injEq] at h
      obtain ⟨rfl, -⟩ := h
      simp [Caller.cost, CallPhase.cost]
    | false =>
      simp only [callerStep, WorkQueue.enqueue, hc, Bool.false_eq_true, if_false,
        Option.some.injEq, Prod.mk.injEq] at h
      obtain ⟨rfl, -⟩ := h
      simp [Caller.cost, CallPhase.cost, WorkQueue.enqueueMetrics]
  | refused chunk =>
    cases h
    simp [Caller.cost, CallPhase.cost, Caller.answer]
  | closing =>
    cases h
    simp [Caller.cost, CallPhase.cost, WorkQueue.enqueueMetrics]
  | reporting updates =>
    cases updates with
    | nil =>
      cases h
      simp [Caller.cost, CallPhase.cost, Caller.answer]
    | cons update updates =>
      cases h
      simp [Caller.cost, CallPhase.cost]

theorem lower_of_callerStep (job : Job σ) {s : System σ} {i : Nat} {c : Caller}
    {next : Caller × Core σ} (hc : s.callers[i]? = some c) (hstep : callerStep c s.core = some next) :
    (s.step job (.caller i)).Lower s := by
  obtain ⟨c', core'⟩ := next
  have hcost := cost_of_callerStep hstep
  have hset := total_set Caller.cost c' hc
  left
  simp only [System.step, hc, Option.bind_some, hstep]
  omega

theorem lower_of_isReady (job : Job σ) {s : System σ} {i : Nat} {w : Worker}
    (hw : s.workers[i]? = some w) (hready : w.isReady s.core.queue = true) :
    (s.step job (.worker i)).Lower s := by
  have hset (m : Worker → Nat) := total_set m (advance job i w s.core).1 hw
  have hrank := hset Worker.rank
  have hweight := hset Worker.weight
  have hduties := hset (·.duties.length)
  have hlower := advance_decreases job i hready
  simp only [System.step, hw, Option.bind_some, workerStep, hready, if_true]
  refine .inr ⟨rfl, ?_⟩
  simp only [Shrinks] at hlower ⊢
  omega

/-- Whoever takes a turn can take no step, or brings the pool nearer to its end. -/
theorem step_eq_or_lower (job : Job σ) (s : System σ) (actor : Actor) :
    s.step job actor = s ∨ (s.step job actor).Lower s := by
  cases actor with
  | caller i =>
    rcases hc : s.callers[i]? with - | c
    · exact .inl (by simp [System.step, hc])
    · rcases hstep : callerStep c s.core with - | next
      · exact .inl (by simp [System.step, hc, hstep])
      · exact .inr (lower_of_callerStep job hc hstep)
  | worker i =>
    rcases hw : s.workers[i]? with - | w
    · exact .inl (by simp [System.step, hw])
    · by_cases hready : w.isReady s.core.queue = true
      · exact .inr (lower_of_isReady job hw hready)
      · exact .inl (by simp [System.step, hw, workerStep, hready])

/-! ### Nobody waits for nothing -/

/-- Someone asks to shut the pool down. -/
def EndsSometime (calls : List (List Call)) : Prop :=
  ∃ requests ∈ calls, Call.shutdown ∈ requests

theorem Accounts.closed_of_answered {job : Job σ} {spawned : List Bool} {shared : σ}
    {calls : List (List Call)} {s : System σ} {h : List Happening}
    (hi : Accounts job spawned shared calls s h) (hends : EndsSometime calls)
    (hdone : ∀ c ∈ s.callers, c.phase = .idle ∧ c.calls = []) : s.core.queue.closed = true := by
  have howed : total (·.phase.owesEnd) s.callers = 0 :=
    total_eq_zero fun c hc => by rw [(hdone c hc).1]; rfl
  have hnone : total (·.calls.countP Call.isShutdown) s.callers = 0 :=
    total_eq_zero fun c hc => by rw [(hdone c hc).2]; rfl
  have haccepting : s.core.open = 0 := by
    unfold Core.open
    split
    · next ha =>
      obtain ⟨requests, hmem, hshutdown⟩ := hends
      have hone := measure_le_total (·.countP Call.isShutdown) hmem
      have hpos : 0 < requests.countP Call.isShutdown :=
        List.countP_pos_iff.2 ⟨_, hshutdown, rfl⟩
      rw [← hi.shutdowns ha, hnone] at hone
      omega
    · rfl
  have := hi.once
  rw [hi.closed, decide_eq_true_iff]
  omega

theorem idle_of_callerStep {c : Caller} {core : Core σ} (h : callerStep c core = none) :
    c.phase = .idle ∧ c.calls = [] := by
  obtain ⟨phase, calls, answers⟩ := c
  cases phase with
  | idle =>
    simp only [callerStep, beginCall] at h
    split at h
    · exact ⟨rfl, rfl⟩
    all_goals split at h <;> cases h
  | counted chunk =>
    simp only [callerStep] at h
    split at h <;> cases h
  | reporting updates => cases updates <;> cases h
  | _ => cases h

/-- **A pool that is not closed has someone who can take a step.** -/
theorem Accounts.exists_lower {job : Job σ} {spawned : List Bool} {shared : σ}
    {calls : List (List Call)} {s : System σ} {h : List Happening}
    (hi : Accounts job spawned shared calls s h) (hends : EndsSometime calls)
    (hopen : ¬ s.IsClosed) :
    (∃ i < s.callers.length, (s.step job (.caller i)).Lower s) ∨
      ∃ i < s.workers.length, (s.step job (.worker i)).Lower s := by
  by_cases hdone : ∀ c ∈ s.callers, c.phase = .idle ∧ c.calls = []
  · right
    have hclosed := hi.closed_of_answered hends hdone
    have hbusy : ¬ ∀ w ∈ s.workers, w.isOver = true := fun hover => hopen ⟨hdone, hover⟩
    push Not at hbusy
    obtain ⟨w, hw, hover⟩ := hbusy
    obtain ⟨i, hlt, rfl⟩ := List.mem_iff_getElem.1 hw
    refine ⟨i, hlt, lower_of_isReady job (List.getElem?_eq_getElem hlt) ?_⟩
    generalize s.workers[i] = w at hover
    cases w with
    | waiting => simp [Worker.isReady, hclosed]
    | busy chunk duties => rfl
    | leaving duties => rfl
    | gone => exact absurd rfl hover
    | dead report => exact absurd rfl hover
  · left
    push Not at hdone
    obtain ⟨c, hc, hbusy⟩ := hdone
    obtain ⟨i, hlt, rfl⟩ := List.mem_iff_getElem.1 hc
    rcases hstep : callerStep s.callers[i] s.core with - | next
    · obtain ⟨hphase, hcalls⟩ := idle_of_callerStep hstep
      exact absurd hcalls (hbusy hphase)
    · exact ⟨i, hlt, lower_of_callerStep job (List.getElem?_eq_getElem hlt) hstep⟩

/-! ### Fair schedules -/

/-- Each of so many callers and workers gets a turn again and again. -/
structure Fair (callers workers : Nat) (turns : Nat → Actor) : Prop where
  callers : ∀ i < callers, ∀ n, ∃ m, n ≤ m ∧ turns m = .caller i
  workers : ∀ i < workers, ∀ n, ∃ m, n ≤ m ∧ turns m = .worker i

theorem Fair.shift {callers workers : Nat} {turns : Nat → Actor} (h : Fair callers workers turns)
    (k : Nat) : Fair callers workers fun n => turns (k + n) := by
  constructor
  · intro i hi n
    obtain ⟨m, hm, hturn⟩ := h.callers i hi (k + n)
    exact ⟨m - k, by omega, by rw [← hturn]; congr 1; omega⟩
  · intro i hi n
    obtain ⟨m, hm, hturn⟩ := h.workers i hi (k + n)
    exact ⟨m - k, by omega, by rw [← hturn]; congr 1; omega⟩

/-- Everyone in turn: the callers, then the workers, then the callers again. -/
def roundRobin (callers workers : Nat) (n : Nat) : Actor :=
  let turn := n % (callers + workers)
  if turn < callers then .caller turn else .worker (turn - callers)

theorem fair_roundRobin (callers workers : Nat) :
    Fair callers workers (roundRobin callers workers) := by
  have later (i n : Nat) (hi : i < callers + workers) :
      n ≤ (callers + workers) * n + i ∧
        ((callers + workers) * n + i) % (callers + workers) = i := by
    refine ⟨?_, by rw [Nat.mul_add_mod, Nat.mod_eq_of_lt hi]⟩
    have := Nat.le_mul_of_pos_left n (Nat.zero_lt_of_lt hi)
    omega
  constructor
  · intro i hi n
    obtain ⟨hle, hmod⟩ := later i n (by omega)
    exact ⟨_, hle, by simp only [roundRobin, hmod, if_pos hi]⟩
  · intro i hi n
    obtain ⟨hle, hmod⟩ := later (callers + i) n (by omega)
    refine ⟨_, hle, ?_⟩
    simp only [roundRobin, hmod, if_neg (Nat.not_lt.2 (Nat.le_add_right callers i)),
      Nat.add_sub_cancel_left]

namespace System

/-- A pool after so many turns. -/
def after (job : Job σ) (s : System σ) (turns : Nat → Actor) (n : Nat) : System σ :=
  s.run job ((List.range n).map turns)

theorem after_succ (job : Job σ) (s : System σ) (turns : Nat → Actor) (n : Nat) :
    s.after job turns (n + 1) = (s.after job turns n).step job (turns n) := by
  simp [after, run, List.range_succ]

theorem after_add (job : Job σ) (s : System σ) (turns : Nat → Actor) (k n : Nat) :
    s.after job turns (k + n) = (s.after job turns k).after job (fun m => turns (k + m)) n := by
  induction n with
  | zero => rfl
  | succ n ih => rw [← Nat.add_assoc, after_succ, after_succ, ih]

@[simp]
theorem length_callers_step (job : Job σ) (s : System σ) (actor : Actor) :
    (s.step job actor).callers.length = s.callers.length := by
  cases actor <;> simp only [step] <;> split <;> simp

@[simp]
theorem length_workers_step (job : Job σ) (s : System σ) (actor : Actor) :
    (s.step job actor).workers.length = s.workers.length := by
  cases actor <;> simp only [step] <;> split <;> simp

@[simp]
theorem length_callers_after (job : Job σ) (s : System σ) (turns : Nat → Actor) (n : Nat) :
    (s.after job turns n).callers.length = s.callers.length := by
  induction n with
  | zero => rfl
  | succ n ih => rw [after_succ, length_callers_step, ih]

@[simp]
theorem length_workers_after (job : Job σ) (s : System σ) (turns : Nat → Actor) (n : Nat) :
    (s.after job turns n).workers.length = s.workers.length := by
  induction n with
  | zero => rfl
  | succ n ih => rw [after_succ, length_workers_step, ih]

theorem after_eq_or_lower (job : Job σ) (s : System σ) (turns : Nat → Actor) (n : Nat) :
    s.after job turns n = s ∨ ∃ k ≤ n, (s.after job turns k).Lower s := by
  induction n with
  | zero => exact .inl rfl
  | succ n ih =>
    rcases ih with ih | ⟨k, hk, hlower⟩
    · rcases step_eq_or_lower job s (turns n) with hstep | hstep
      · exact .inl (by rw [after_succ, ih, hstep])
      · exact .inr ⟨n + 1, Nat.le_refl _, by rw [after_succ, ih]; exact hstep⟩
    · exact .inr ⟨k, by omega, hlower⟩

/-- Whoever can take a step and gets a turn brings the pool nearer to its end, if nobody did
before. -/
theorem lower_of_turn {job : Job σ} {s : System σ} {turns : Nat → Actor} {actor : Actor} {m : Nat}
    (hturn : turns m = actor) (hlower : (s.step job actor).Lower s) :
    ∃ k, (s.after job turns k).Lower s := by
  rcases after_eq_or_lower job s turns m with heq | ⟨k, -, hk⟩
  · exact ⟨m + 1, by rwa [after_succ, heq, hturn]⟩
  · exact ⟨k, hk⟩

/-- **Fair schedules close a pool.**  By induction on the measure of the pool: someone can take a step
and will get a turn, after which the pool is nearer to its end and the rest of the schedule is fair. -/
theorem closes_of_fair {job : Job σ} (hq : job.telemetry.Quiet) {spawned : List Bool} {shared : σ}
    {calls : List (List Call)} (hends : EndsSometime calls) (s : System σ)
    (hi : ∃ h, Accounts job spawned shared calls s h) (turns : Nat → Actor)
    (hfair : Fair s.callers.length s.workers.length turns) :
    ∃ n, (s.after job turns n).IsClosed := by
  by_cases hopen : s.IsClosed
  · exact ⟨0, hopen⟩
  · obtain ⟨h, hi⟩ := hi
    have hnext : ∃ k, (s.after job turns k).Lower s := by
      rcases hi.exists_lower hends hopen with ⟨i, hlt, hlower⟩ | ⟨i, hlt, hlower⟩
      · obtain ⟨m, -, hturn⟩ := hfair.callers i hlt 0
        exact lower_of_turn hturn hlower
      · obtain ⟨m, -, hturn⟩ := hfair.workers i hlt 0
        exact lower_of_turn hturn hlower
    obtain ⟨k, hlower⟩ := hnext
    have hlower' := hlower
    simp only [Lower] at hlower'
    obtain ⟨n, hn⟩ := closes_of_fair hq hends (s.after job turns k)
      ⟨_, hi.steps hq _⟩ (fun m => turns (k + m)) (by simpa using hfair.shift k)
    exact ⟨k + n, by rwa [after_add]⟩
termination_by (total Caller.cost s.callers, s.core.queue.length, total Worker.rank s.workers,
  total Worker.weight s.workers, total (·.duties.length) s.workers)
decreasing_by
  simp only [Prod.lex_def]
  assumption

end System

end FilteredChunks.Pool
