import FilteredChunks.Proofs.Pool.ExactlyOnce
import FilteredChunks.Proofs.Pool.Gauge

/-!
# The telemetry of a pool balances

The default telemetry counts the chunks that are started and done, and shows how many workers have one.
`Balanced` says what the metrics show at every moment and `Totals` what they show once the pool is
closed, when they agree with its summary; `telemetry_balances` is the main statement.
-/

namespace FilteredChunks.Pool

open Metrics (Update)

variable {σ : Type}

/-! ### Counters and samples -/

theorem booked_amount {name : String} (h : name ∈ bookNames) : Booked (Update.amount name) where
  foreign update hforeign := by
    cases update with
    | count n amount =>
      refine if_neg fun heq => hforeign ?_
      rwa [← heq] at h
    | _ => rfl
  timeless _ := rfl

theorem booked_sampled {name : String} (h : name ∈ bookNames) : Booked (Update.sampled name) where
  foreign update hforeign := by
    cases update with
    | sample n value =>
      refine if_neg fun heq => hforeign ?_
      rwa [← heq] at h
    | _ => rfl
  timeless _ := rfl

theorem precedes_counts :
    Precedes (Update.amount Metrics.tasksStarted) (Update.amount Metrics.tasks) where
  uniform_early := ⟨booked_amount (by decide), by decide, by decide, by decide, by decide, by decide⟩
  uniform_late := ⟨booked_amount (by decide), by decide, by decide, by decide, by decide, by decide⟩
  early_end := by decide
  late_start := by decide
  same := by decide

/-! ### What the metrics show -/

/-- What the metrics of a pool with so many workers show at a moment, `updates` being those made so
far. -/
structure Balanced (workers : Nat) (metrics : Metrics.Store) (updates : List Update) : Prop where
  recorded : metrics = Metrics.Store.empty.applyAll updates
  /-- The gauge goes up and down by one. -/
  steps : ∀ update ∈ updates, update.name = Metrics.activeWorkers →
    update = raising ∨ update = lowering
  even : Even updates
  gauge_le : metrics.gauge Metrics.activeWorkers ≤ workers
  tasks_le : metrics.counter Metrics.tasks ≤ metrics.counter Metrics.tasksStarted

/-- What the metrics of a pool with so many workers show once it is closed, so many chunks having been
accepted.  Counters stop at the largest value. -/
structure Totals (workers accepted : Nat) (metrics : Metrics.Store) (summary : WriteSummary) :
    Prop where
  started : metrics.counter Metrics.tasksStarted = min accepted Metrics.largest
  tasks : metrics.counter Metrics.tasks = min accepted Metrics.largest
  timed : metrics.samples Metrics.taskLatency = min accepted Metrics.largest
  finished : metrics.counter Metrics.tasksFinished = min summary.written.length Metrics.largest
  failed : metrics.counter Metrics.tasksFailed = min summary.failures.length Metrics.largest
  ended : summary.written.length + summary.failures.length = accepted
  enqueued : metrics.counter Metrics.queueEnqueued = min accepted Metrics.largest
  closed : metrics.counter Metrics.queueClosed = 1
  exits : metrics.counter Metrics.workerExits = workers
  idle : metrics.gauge Metrics.activeWorkers = 0

/-- The same with counters that have not come to the largest value. -/
structure Exact (accepted : Nat) (metrics : Metrics.Store) (summary : WriteSummary) : Prop where
  started : metrics.counter Metrics.tasksStarted = accepted
  tasks : metrics.counter Metrics.tasks = accepted
  ended : metrics.counter Metrics.tasksFinished + metrics.counter Metrics.tasksFailed = accepted
  failed : metrics.counter Metrics.tasksFailed = summary.failures.length
  timed : metrics.samples Metrics.taskLatency = accepted
  enqueued : metrics.counter Metrics.queueEnqueued = accepted

theorem Totals.exact {workers accepted : Nat} {metrics : Metrics.Store} {summary : WriteSummary}
    (h : Totals workers accepted metrics summary) (hfits : accepted ≤ Metrics.largest) :
    Exact accepted metrics summary := by
  have hended := h.ended
  constructor
  case started => exact h.started.trans (Nat.min_eq_left hfits)
  case tasks => exact h.tasks.trans (Nat.min_eq_left hfits)
  case ended =>
    rw [h.finished, h.failed]
    omega
  case failed => exact h.failed.trans (Nat.min_eq_left (by omega))
  case timed => exact h.timed.trans (Nat.min_eq_left hfits)
  case enqueued => exact h.enqueued.trans (Nat.min_eq_left hfits)

theorem balanced_run {apply : Nat → Chunk → σ → Applied σ} (happly : LeavesBooks apply)
    (latency : Hook → Nat) {workers : Nat} (hworkers : max workers 1 ≤ Metrics.largest) (shared : σ)
    (calls : List (List Call)) (schedule : List Actor) :
    let job : Job σ := ⟨apply, .timed latency⟩
    let s : System σ := .start workers shared .empty calls
    Balanced (max workers 1) (s.run job schedule).core.metrics (s.recorded job schedule) := by
  intro job s
  have hledger := Ledger.run happly latency workers shared calls schedule
  have hsteady := Steady.run happly latency workers shared .empty calls schedule
  have heven := even_recorded happly latency hworkers shared calls schedule
  obtain ⟨-, hnear⟩ := hledger.lowerings_le hsteady
  rw [System.length_workers_run, System.length_workers_start] at hnear
  refine ⟨hledger.metrics, hledger.eq_of_name, heven, ?_, ?_⟩
  · have hgauge := heven.gauge
    rw [hledger.metrics]
    omega
  · have hcounts := hledger.le_of_precedes hsteady precedes_counts
    rw [hledger.metrics, Metrics.Store.counter_applyAll_empty, Metrics.Store.counter_applyAll_empty]
    exact (le_min_iff.2 ⟨(Nat.min_le_left _ _).trans hcounts, Nat.min_le_right _ _⟩)

/-! ### Closed pools -/

theorem start_eq_spawn (workers : Nat) (shared : σ) (metrics : Metrics.Store)
    (calls : List (List Call)) :
    System.start workers shared metrics calls =
      .spawn (List.replicate (max workers 1) true) shared metrics calls := by
  simp [System.start, System.spawn, Core.start]

theorem Ledger.total_of_closed {s : System σ} {h : List Happening} {updates : List Update}
    (hl : Ledger s h updates) (hgone : ∀ w ∈ s.workers, w = .gone) (hc : s.IsClosed)
    {measure : Update → Nat} (hm : Booked measure) :
    total measure updates =
      s.workers.length * exitCost measure + total (Happening.brings measure) h := by
  have hworkers : total (Worker.owes measure) s.workers = 0 :=
    total_eq_zero fun w hw => by rw [hgone w hw]; rfl
  have hcallers : total (Caller.owes measure) s.callers = 0 :=
    total_eq_zero fun c hmem => by rw [Caller.owes, (hc.callers c hmem).1]
  have hbalance := hl.balance measure hm
  omega

theorem Accounts.ends_of_closed {job : Job σ} {spawned : List Bool} {shared : σ}
    {calls : List (List Call)} {s : System σ} {h : List Happening}
    (hi : Accounts job spawned shared calls s h) (hends : EndsSometime calls) (hc : s.IsClosed) :
    ends h = 1 := by
  have hclosed := hi.closed_of_answered hends hc.callers
  rw [hi.closed, decide_eq_true_iff] at hclosed
  have honce := hi.once
  omega

/-- What a measure gives for everything that is to be recorded. -/
structure Prices where
  exit : Nat
  taken : Nat
  finished : Nat
  failed : Nat
  entered : Nat
  ended : Nat
  deriving DecidableEq

def pricesOf (measure : Update → Nat) : Prices where
  exit := exitCost measure
  taken := startCost measure + endCost measure
  finished := measure (.count Metrics.tasksFinished 1)
  failed := measure (.count Metrics.tasksFailed 1)
  entered := measure (.count Metrics.queueEnqueued 1)
  ended := measure (.count Metrics.queueClosed 1)

/-- What a pool comes to that so many workers have left, in which so many chunks were entered and
taken, with so many writes and failures, and that was shut down once. -/
def Prices.sum (p : Prices) (workers chunks written failed : Nat) : Nat :=
  workers * p.exit + chunks * p.taken + written * p.finished + failed * p.failed +
    chunks * p.entered + p.ended

section Closed

variable {job : Job σ} {spawned : List Bool} {shared : σ} {calls : List (List Call)} {s : System σ}
  {h : List Happening} {updates : List Update}

theorem total_of_closed (hi : Accounts job spawned shared calls s h) (hends : EndsSometime calls)
    (hs : true ∈ spawned) (hl : Ledger s h updates) (hc : s.IsClosed) {measure : Update → Nat}
    (hm : Booked measure) :
    total measure updates = (pricesOf measure).sum s.workers.length (entered h).length
      (listed s.core).written.length (listed s.core).failures.length := by
  have hsettled := hi.settled hs hc
  have htells := hsettled.tells (List.Perm.refl (entered h))
  have htotal := hl.total_of_closed (hi.gone hc) hc hm
  rw [total_brings, hsettled.taken, hi.ends_of_closed hends hc, ← htells.written.length_eq,
    ← htells.failures.length_eq] at htotal
  simp only [Prices.sum, pricesOf]
  omega

/-- **The metrics of a closed pool** show what became of its chunks. -/
theorem totals_of_closed (hi : Accounts job spawned shared calls s h) (hends : EndsSometime calls)
    (hs : true ∈ spawned) (hl : Ledger s h updates) (heven : Even updates)
    (hworkers : s.workers.length ≤ Metrics.largest) (hc : s.IsClosed) :
    Totals s.workers.length (entered h).length s.core.metrics (listed s.core) := by
  have hbooks {measure : Update → Nat} (hm : Booked measure) :=
    total_of_closed hi hends hs hl hc hm
  have hcounter {name : String} (hname : name ∈ bookNames) {prices : Prices}
      (hprices : pricesOf (Update.amount name) = prices) : s.core.metrics.counter name =
        min (prices.sum s.workers.length (entered h).length (listed s.core).written.length
          (listed s.core).failures.length) Metrics.largest := by
    rw [hl.metrics, Metrics.Store.counter_applyAll_empty, Metrics.counted,
      hbooks (booked_amount hname), hprices]
  have hchunk {measure : Update → Nat} (hm : Booked measure)
      (hprices : pricesOf measure = ⟨0, 1, 0, 0, 0, 0⟩) :
      total measure updates = (entered h).length := by
    rw [hbooks hm, hprices]
    simp [Prices.sum]
  constructor
  case started =>
    simpa [Prices.sum] using hcounter (by decide) (by decide : _ = Prices.mk 0 1 0 0 0 0)
  case tasks =>
    simpa [Prices.sum] using hcounter (by decide) (by decide : _ = Prices.mk 0 1 0 0 0 0)
  case finished =>
    simpa [Prices.sum] using hcounter (by decide) (by decide : _ = Prices.mk 0 0 1 0 0 0)
  case failed =>
    simpa [Prices.sum] using hcounter (by decide) (by decide : _ = Prices.mk 0 0 0 1 0 0)
  case enqueued =>
    simpa [Prices.sum] using hcounter (by decide) (by decide : _ = Prices.mk 0 0 0 0 1 0)
  case closed =>
    have hlargest : min 1 Metrics.largest = 1 := by decide
    simpa [Prices.sum, hlargest] using hcounter (by decide) (by decide : _ = Prices.mk 0 0 0 0 0 1)
  case exits =>
    simpa [Prices.sum, hworkers] using
      hcounter (by decide) (by decide : _ = Prices.mk 1 0 0 0 0 0)
  case timed =>
    rw [hl.metrics, Metrics.Store.samples_applyAll_empty,
      hchunk (booked_sampled (by decide)) (by decide)]
  case ended =>
    have hsettled := hi.settled hs hc
    have htells := hsettled.tells (List.Perm.refl (entered h))
    have happlied := hsettled.applied.length_eq
    rw [length_applied] at happlied
    rw [htells.written.length_eq, htells.failures.length_eq, length_writes_add_failures,
      List.length_map, happlied]
  case idle =>
    have hraised : updates.count raising = (entered h).length :=
      (total_indicator _ _).symm.trans (hchunk precedes_gauge.uniform_early.toBooked (by decide))
    have hlowered : updates.count lowering = (entered h).length :=
      (total_indicator _ _).symm.trans (hchunk precedes_gauge.uniform_late.toBooked (by decide))
    have hgauge := heven.gauge
    rw [hl.metrics]
    omega

end Closed

/-! ### Every schedule -/

/-- **The telemetry of a pool balances.**  Of a pool that starts without metrics, all of whose threads
could be started and whose function leaves its books alone: after every schedule `Balanced` holds, once
the pool is closed its metrics agree with its summary (`Totals`), and every schedule that gives each
caller and each worker a turn again and again closes it. -/
theorem System.telemetry_balances {apply : Nat → Chunk → σ → Applied σ} (happly : LeavesBooks apply)
    (latency : Hook → Nat) {workers : Nat} (hworkers : workers ≤ Metrics.largest) (shared : σ)
    (calls : List (List Call)) :
    let job : Job σ := ⟨apply, .timed latency⟩
    let start : System σ := .start workers shared .empty (withClosing calls)
    (∀ schedule : List Actor,
      let s := start.run job schedule
      let accepted := acceptedFrom (withClosing calls) (s.callers.map Caller.answers)
      Balanced (max workers 1) s.core.metrics (start.recorded job schedule) ∧
        (s.IsClosed → ∃ summary, summarise s.core s.workers = .ok summary ∧
          Totals (max workers 1) accepted.length s.core.metrics summary ∧
          (accepted.length ≤ Metrics.largest → Exact accepted.length s.core.metrics summary))) ∧
    ∀ turns : Nat → Actor, Fair (calls.length + 1) (max workers 1) turns →
      ∃ n, (start.after job turns n).IsClosed := by
  intro job start
  have hq : job.telemetry.Quiet := Telemetry.quiet_timed latency
  have hlargest : max workers 1 ≤ Metrics.largest := max_le hworkers (by decide)
  have hs : true ∈ List.replicate (max workers 1) true :=
    List.mem_replicate.2 ⟨Nat.ne_of_gt (Nat.le_max_right workers 1), rfl⟩
  have hends : EndsSometime (withClosing calls) :=
    ⟨_, by simp [withClosing], List.mem_singleton_self _⟩
  have hstart := start_eq_spawn workers shared .empty (withClosing calls)
  refine ⟨fun schedule => ⟨balanced_run happly latency hlargest shared _ schedule, fun hc => ?_⟩,
    fun turns hfair => ?_⟩
  · have hi : Accounts job _ shared (withClosing calls) (start.run job schedule)
        (start.history job schedule) :=
      hstart ▸ Accounts.run hq (List.ne_nil_of_mem hs) .empty schedule
    have htotals := totals_of_closed hi hends hs (Ledger.run happly latency workers shared _ schedule)
      (even_recorded happly latency hlargest shared _ schedule) (by simpa [start] using hlargest) hc
    rw [length_workers_run, length_workers_start, (hi.accepted_of_closed hc).length_eq] at htotals
    exact ⟨_, (hi.settled hs hc).summarise_eq, htotals, htotals.exact⟩
  · refine closes_of_fair hq hends start
      ⟨[], hstart ▸ Accounts.start job (List.ne_nil_of_mem hs) shared .empty _⟩ turns ?_
    simpa [start, System.start, withClosing] using hfair

theorem System.telemetry_balances_twoCallers :
    LeavesBooks pickyJob.apply ∧ 2 ≤ Metrics.largest ∧ Fair 3 2 (roundRobin 3 2) ∧
    ∃ (n : Nat) (summary : WriteSummary) (accepted : Nat),
      let s := (System.start 2 () .empty (withClosing twoCallers)).after
        ⟨pickyJob.apply, .timed fun _ => 7⟩ (roundRobin 3 2) n
      summarise s.core s.workers = .ok summary ∧ Totals 2 accepted s.core.metrics summary := by
  have happly : LeavesBooks pickyJob.apply := by
    intro worker chunk shared update hmem
    simp [pickyJob] at hmem
  have hworkers : 2 ≤ Metrics.largest := by decide
  obtain ⟨hbalanced, hcloses⟩ :=
    System.telemetry_balances happly (fun _ => 7) hworkers () twoCallers
  obtain ⟨n, hn⟩ := hcloses _ (fair_roundRobin 3 2)
  obtain ⟨summary, hsummary, htotals, -⟩ := (hbalanced _).2 hn
  exact ⟨happly, hworkers, fair_roundRobin 3 2, n, summary, _, hsummary, htotals⟩

end FilteredChunks.Pool
