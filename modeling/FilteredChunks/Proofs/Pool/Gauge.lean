import FilteredChunks.Proofs.Pool.Pacing
import Mathlib.Data.List.Induction

/-!
# The gauge of active workers

Each worker raises the gauge when it has taken a chunk and lowers it when it is done.  A gauge that goes
down stops at zero, which would hide that it had not been raised before.  `Even` says that it never
comes to that, and `even_recorded` that this is so whatever the schedule: raisings come before
lowerings, and no others touch the gauge.
-/

namespace FilteredChunks.Pool

open Metrics (Update)

variable {σ : Type}

/-! ### Raising and lowering -/

/-- Counts the updates of some kind. -/
def indicator (p : Update → Bool) (update : Update) : Nat := if p update then 1 else 0

theorem total_indicator (p : Update → Bool) (updates : List Update) :
    total (indicator p) updates = updates.countP p := by
  induction updates with
  | nil => rfl
  | cons update rest ih =>
    rw [total_cons, ih, List.countP_cons, indicator]
    exact Nat.add_comm _ _

/-- One more active worker. -/
def raising : Update := .raise Metrics.activeWorkers 1

/-- One active worker less. -/
def lowering : Update := .lower Metrics.activeWorkers 1

/-- Whether an update does anything else to the gauge of active workers. -/
def isStray (update : Update) : Bool :=
  update.name == Metrics.activeWorkers && update != raising && update != lowering

theorem booked_indicator {p : Update → Bool}
    (hname : ∀ u, p u = true → u.name = Metrics.activeWorkers) : Booked (indicator p) where
  foreign update hforeign := by
    refine if_neg fun hupdate => hforeign ?_
    rw [hname update hupdate]
    decide
  timeless value := by
    have hne : Metrics.taskLatency ≠ Metrics.activeWorkers := by decide
    have hnever (value : Nat) : ¬ p (.sample Metrics.taskLatency value) = true :=
      fun hp => hne (hname _ hp)
    rw [indicator, if_neg (hnever value), indicator, if_neg (hnever 0)]

theorem booked_beq {update : Update} (h : update.name = Metrics.activeWorkers) :
    Booked (indicator (· == update)) :=
  booked_indicator fun _ hu => (congrArg Update.name (beq_iff_eq.1 hu)).trans h

theorem precedes_gauge : Precedes (indicator (· == raising)) (indicator (· == lowering)) where
  uniform_early := ⟨booked_beq rfl, by decide, by decide, by decide, by decide, by decide⟩
  uniform_late := ⟨booked_beq rfl, by decide, by decide, by decide, by decide, by decide⟩
  early_end := by decide
  late_start := by decide
  same := by decide

theorem uniform_stray : Uniform (indicator isStray) where
  toBooked := by
    refine booked_indicator fun update hstray => ?_
    rw [isStray, Bool.and_eq_true, Bool.and_eq_true] at hstray
    exact beq_iff_eq.1 hstray.1.1
  finished := by decide
  failed := by decide
  exit := by decide
  enqueued := by decide
  closed := by decide

/-! ### The gauge -/

/-- The gauge of active workers shows the raisings less the lowerings that there were, and at each
lowering there was something to take. -/
structure Even (updates : List Update) : Prop where
  gauge : (Metrics.Store.empty.applyAll updates).gauge Metrics.activeWorkers +
    updates.count lowering = updates.count raising
  enough : ∀ before later, updates = before ++ lowering :: later →
    0 < (Metrics.Store.empty.applyAll before).gauge Metrics.activeWorkers

theorem split_of_append {α : Type} {xs ys before later : List α} {x : α}
    (h : xs ++ ys = before ++ x :: later) :
    (∃ later', xs = before ++ x :: later') ∨
      ∃ before', before = xs ++ before' ∧ ys = before' ++ x :: later := by
  rcases List.append_eq_append_iff.1 h with ⟨before', hbefore, hys⟩ | ⟨middle, hxs, hmiddle⟩
  · exact .inr ⟨before', hbefore, hys⟩
  · cases middle with
    | nil => exact .inr ⟨[], by simpa using hxs.symm, hmiddle.symm⟩
    | cons y later' =>
      rw [List.cons_append, List.cons.injEq] at hmiddle
      exact .inl ⟨later', by rw [hxs, hmiddle.1]⟩

namespace Even

variable {updates : List Update}

theorem nil : Even [] := ⟨rfl, fun before later h => by simp at h⟩

/-- Further updates among which there is no lowering leave nothing to ask of the lowerings. -/
theorem enough_append (h : Even updates) {others : List Update} (hothers : lowering ∉ others)
    (before later : List Update) (heq : updates ++ others = before ++ lowering :: later) :
    0 < (Metrics.Store.empty.applyAll before).gauge Metrics.activeWorkers := by
  rcases split_of_append heq with ⟨later', hupdates⟩ | ⟨before', -, hlater⟩
  · exact h.enough before later' hupdates
  · exact absurd (hlater ▸ List.mem_append_right _ List.mem_cons_self) hothers

theorem append_of_ne (h : Even updates) {others : List Update}
    (hothers : ∀ update ∈ others, update.name ≠ Metrics.activeWorkers) :
    Even (updates ++ others) where
  gauge := by
    have hnone {update : Update} (hname : update.name = Metrics.activeWorkers) :
        others.count update = 0 := List.count_eq_zero.2 fun hmem => hothers update hmem hname
    rw [Metrics.Store.applyAll_append, Metrics.Store.gauge_applyAll_of_ne _ hothers, List.count_append,
      List.count_append, hnone rfl, hnone rfl]
    exact h.gauge
  enough := h.enough_append fun hmem => hothers lowering hmem rfl

theorem concat_raising (h : Even updates)
    (hroom : updates.count raising < updates.count lowering + Metrics.largest) :
    Even (updates ++ [raising]) where
  gauge := by
    have hgauge := h.gauge
    have hafter : (Metrics.Store.empty.applyAll (updates ++ [raising])).gauge Metrics.activeWorkers =
        Metrics.add ((Metrics.Store.empty.applyAll updates).gauge Metrics.activeWorkers) 1 := by
      rw [Metrics.Store.applyAll_concat]
      exact Metrics.Store.gauge_raise ..
    have hraisings : (updates ++ [raising]).count raising = updates.count raising + 1 := by simp
    have hlowerings : (updates ++ [raising]).count lowering = updates.count lowering := by
      rw [List.count_append, List.count_eq_zero.2 (by decide : lowering ∉ [raising]), Nat.add_zero]
    rw [hafter, hraisings, hlowerings, Metrics.add]
    omega
  enough := h.enough_append (by decide)

/-- A lowering finds something to take if there were fewer of them than raisings. -/
theorem concat_lowering (h : Even updates) (henough : updates.count lowering < updates.count raising) :
    Even (updates ++ [lowering]) where
  gauge := by
    have hgauge := h.gauge
    have hafter : (Metrics.Store.empty.applyAll (updates ++ [lowering])).gauge Metrics.activeWorkers =
        (Metrics.Store.empty.applyAll updates).gauge Metrics.activeWorkers - 1 := by
      rw [Metrics.Store.applyAll_concat]
      exact Metrics.Store.gauge_lower ..
    have hraisings : (updates ++ [lowering]).count raising = updates.count raising := by
      rw [List.count_append, List.count_eq_zero.2 (by decide : raising ∉ [lowering]), Nat.add_zero]
    have hlowerings : (updates ++ [lowering]).count lowering = updates.count lowering + 1 := by simp
    rw [hafter, hraisings, hlowerings]
    omega
  enough before later heq := by
    rcases split_of_append heq with ⟨later', hupdates⟩ | ⟨before', rfl, hlater⟩
    · exact h.enough before later' hupdates
    · have hnil : before' = [] := by
        cases before' with
        | nil => rfl
        | cons update before' => simp at hlater
      have hgauge := h.gauge
      rw [hnil, List.append_nil]
      omega

end Even

/-! ### At every moment -/

section Run

variable {apply : Nat → Chunk → σ → Applied σ}

namespace System

@[simp]
theorem length_workers_run (job : Job σ) (s : System σ) (schedule : List Actor) :
    (s.run job schedule).workers.length = s.workers.length := by
  induction schedule generalizing s with
  | nil => rfl
  | cons actor rest ih => exact (ih (s.step job actor)).trans (length_workers_step job s actor)

@[simp]
theorem length_workers_start (workers : Nat) (shared : σ) (metrics : Metrics.Store)
    (calls : List (List Call)) : (start workers shared metrics calls).workers.length = max workers 1 :=
  List.length_replicate

theorem recorded_concat (job : Job σ) (s : System σ) (schedule : List Actor) (actor : Actor) :
    s.recorded job (schedule ++ [actor]) =
      s.recorded job schedule ++ (s.run job schedule).updates job actor := by
  induction schedule generalizing s with
  | nil => simp [recorded, run]
  | cons first rest ih =>
    rw [List.cons_append, recorded, ih, recorded, List.append_assoc]
    rfl

theorem updates_cases (happly : LeavesBooks apply) (latency : Hook → Nat) (s : System σ)
    (actor : Actor) :
    (∃ update, s.updates ⟨apply, .timed latency⟩ actor = [update]) ∨
      ∀ update ∈ s.updates ⟨apply, .timed latency⟩ actor, update.name ∉ bookNames := by
  cases actor with
  | caller i =>
    simp only [updates]
    rcases s.callers[i]? with - | c
    · exact .inr (by simp)
    · simp only [Option.elim_some, callerUpdates]
      split
      · exact .inl ⟨_, rfl⟩
      · exact .inr (by simp)
  | worker i =>
    simp only [updates]
    rcases s.workers[i]? with - | w
    · exact .inr (by simp)
    · simp only [Option.elim_some, workerUpdates]
      split
      · exact .inl ⟨_, rfl⟩
      · exact .inl ⟨_, rfl⟩
      · exact .inr (happly i _ s.core.shared)
      · exact .inr (by simp)

end System

theorem Ledger.eq_of_name {s : System σ} {h : List Happening} {updates : List Update}
    (hl : Ledger s h updates) (update : Update) (hmem : update ∈ updates)
    (hname : update.name = Metrics.activeWorkers) : update = raising ∨ update = lowering := by
  have hbalance := hl.balance _ uniform_stray.toBooked
  have hcost : startCost (indicator isStray) + endCost (indicator isStray) = 0 := by decide
  rw [uniform_stray.exit, uniform_stray.total_brings, hcost, total_indicator] at hbalance
  have hnone : updates.countP isStray = 0 := by omega
  have hstray := List.countP_eq_zero.1 hnone update hmem
  by_contra hother
  rw [not_or] at hother
  exact hstray (by simp [isStray, hname, hother])

/-- There are no more lowerings than raisings, and fewer by at most one for each worker. -/
theorem Ledger.lowerings_le {s : System σ} {h : List Happening} {updates : List Update}
    (hl : Ledger s h updates) (hs : Steady s) :
    updates.count lowering ≤ updates.count raising ∧
      updates.count raising ≤ updates.count lowering + s.workers.length := by
  have hle := hl.le_of_precedes hs precedes_gauge
  have hnear := hl.le_add_workers hs precedes_gauge (by decide)
  rw [total_indicator, total_indicator] at hle hnear
  exact ⟨hle, hnear⟩

/-- **The gauge is even at every moment**, whatever the schedule. -/
theorem even_recorded (happly : LeavesBooks apply) (latency : Hook → Nat) {workers : Nat}
    (hworkers : max workers 1 ≤ Metrics.largest) (shared : σ) (calls : List (List Call))
    (schedule : List Actor) :
    Even ((System.start workers shared .empty calls).recorded ⟨apply, .timed latency⟩ schedule) := by
  induction schedule using List.reverseRecOn with
  | nil => exact .nil
  | append_singleton schedule actor ih =>
    have hledger := Ledger.run happly latency workers shared calls (schedule ++ [actor])
    have hsteady := Steady.run happly latency workers shared .empty calls
      (schedule ++ [actor])
    -- what holds of the books after the step tells whether there was room for it
    obtain ⟨hle, hnear⟩ := hledger.lowerings_le hsteady
    have hown := hledger.eq_of_name
    rw [System.length_workers_run, System.length_workers_start] at hnear
    rw [System.recorded_concat] at hle hnear hown ⊢
    rcases System.updates_cases happly latency
        ((System.start workers shared .empty calls).run ⟨apply, .timed latency⟩ schedule) actor with
      ⟨update, hupdate⟩ | hforeign
    · rw [hupdate] at hle hnear hown ⊢
      by_cases hname : update.name = Metrics.activeWorkers
      · rw [List.count_append, List.count_append] at hle hnear
        rcases hown update (List.mem_append_right _ (List.mem_singleton_self _)) hname with rfl | rfl
        · rw [List.count_singleton_self,
            List.count_eq_zero.2 (by decide : lowering ∉ [raising])] at hnear
          exact ih.concat_raising (by omega)
        · rw [List.count_singleton_self,
            List.count_eq_zero.2 (by decide : raising ∉ [lowering])] at hle
          exact ih.concat_lowering (by omega)
      · exact ih.append_of_ne (by simpa using hname)
    · refine ih.append_of_ne fun update hmem hname => hforeign update hmem ?_
      rw [hname]
      decide

end Run

end FilteredChunks.Pool
