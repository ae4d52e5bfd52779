import FilteredChunks.Pool
import FilteredChunks.Proofs.Pool.Progress
import FilteredChunks.Proofs.Sorting
import Mathlib.Data.List.Count

/-!
# The summary of a closed pool

When a pool is closed nothing is owed any more, so its accounts turn into equations between the chunks
that entered the queue, the applications and the outcomes (`Settled`).  `Settled.summarise_eq` says that
such a pool is summed up without an error, and `Settled.tells` what its summary tells.
-/

namespace FilteredChunks.Pool

variable {σ : Type}

/-! ### Lists as collections -/

theorem perm_of_countP {α : Type} {xs ys : List α}
    (h : ∀ p : α → Bool, xs.countP p = ys.countP p) : xs.Perm ys := by
  classical
  exact List.perm_iff_count.2 fun x => h (· == x)

theorem subperm_of_countP {α : Type} {xs ys : List α}
    (h : ∀ p : α → Bool, xs.countP p ≤ ys.countP p) : xs.Subperm ys := by
  classical
  exact List.subperm_ext_iff.2 fun x _ => h (· == x)

/-! ### Writes and failures -/

theorem length_writes_add_failures (outcomes : List ChunkOutcome) :
    (writes outcomes).length + (failures outcomes).length = outcomes.length := by
  induction outcomes with
  | nil => rfl
  | cons o outcomes ih =>
    obtain ⟨index, offset, result⟩ := o
    cases result <;> simp only [writes, failures, List.filterMap_cons, List.length_cons] at * <;> omega

theorem mem_failures {runs : List (Chunk × Except FilterError ChunkWrite)} {f : ChunkFailure} :
    f ∈ failures (runs.map outcomeAt) ↔
      ∃ chunk error, (chunk, .error error) ∈ runs ∧ f = ⟨chunk.index, chunk.offset, error⟩ := by
  constructor
  · intro hf
    obtain ⟨o, ho, hfail⟩ := List.mem_filterMap.1 hf
    obtain ⟨⟨chunk, result⟩, hmem, rfl⟩ := List.mem_map.1 ho
    cases result with
    | ok write => cases hfail
    | error error =>
      cases hfail
      exact ⟨chunk, error, hmem, rfl⟩
  · rintro ⟨chunk, error, hmem, rfl⟩
    exact List.mem_filterMap.2 ⟨_, List.mem_map_of_mem hmem, rfl⟩

/-- What a pool sums up to, if no worker died and the outcomes are as many as the chunks
submitted. -/
def listed (core : Core σ) : WriteSummary where
  written := (writes core.outcomes.reverse).mergeSort fun a b => decide (a.index ≤ b.index)
  failures := (failures core.outcomes.reverse).mergeSort fun a b => decide (a.index ≤ b.index)
  submitted := core.submitted
  completed := core.completed
  tasks := core.tasks

theorem summarise_eq {core : Core σ} {workers : List Worker}
    (halive : ∀ w ∈ workers, w.isDead = false) (hlen : core.outcomes.length = core.submitted) :
    summarise core workers = .ok (listed core) := by
  have hreport : crashReport? workers = none := by
    refine List.findSome?_eq_none_iff.2 fun w hw => ?_
    cases w with
    | dead report => exact absurd (halive _ hw) (by simp [Worker.isDead])
    | _ => rfl
  have hcollected := length_writes_add_failures core.outcomes.reverse
  rw [List.length_reverse, hlen] at hcollected
  simp only [summarise, hreport, hcollected, ne_eq, not_true_eq_false, if_false, listed]

/-! ### Settled pools -/

/-- A pool in which nothing is owed: what entered the queue was taken, applied, counted and sent. -/
structure Settled (s : System σ) (h : List Happening) : Prop where
  taken : taken h = entered h
  applied : (applied h).Perm (entered h)
  outcomes : s.core.outcomes.reverse.Perm ((applications h).map outcomeAt)
  submitted : s.core.submitted = (entered h).length
  completed : s.core.completed = (entered h).length
  tasks : total id s.core.tasks = (entered h).length
  alive : ∀ w ∈ s.workers, w.isDead = false

theorem Accounts.gone {job : Job σ} {spawned : List Bool} {shared : σ} {calls : List (List Call)}
    {s : System σ} {h : List Happening} (hi : Accounts job spawned shared calls s h)
    (hc : s.IsClosed) : ∀ w ∈ s.workers, w = .gone := by
  intro w hw
  have hover := hc.workers w hw
  have halive := hi.alive w hw
  cases w with
  | gone => rfl
  | dead report => cases halive
  | _ => cases hover

theorem Accounts.settled {job : Job σ} {spawned : List Bool} {shared : σ} {calls : List (List Call)}
    {s : System σ} {h : List Happening} (hi : Accounts job spawned shared calls s h)
    (hs : true ∈ spawned) (hc : s.IsClosed) : Settled s h := by
  have hgone := hi.gone hc
  have none_owed (measure : Worker → Nat) (hm : measure .gone = 0) : total measure s.workers = 0 :=
    total_eq_zero fun w hw => by rw [hgone w hw, hm]
  have hitems : s.core.queue.items = [] := by
    obtain ⟨i, hlt, hi'⟩ := List.mem_iff_getElem.1 hs
    have hlt' : i < s.workers.length := hi.workers ▸ hlt
    refine (hi.left i .gone (List.getElem?_eq_some_iff.2 ⟨hlt, hi'⟩) ?_ rfl).1
    rw [List.getElem?_eq_getElem hlt', hgone _ (List.getElem_mem hlt')]
  have hidle : total (·.phase.owed) s.callers = 0 :=
    total_eq_zero fun c hmem => by rw [(hc.callers c hmem).1]; rfl
  have htaken : taken h = entered h := by rw [hi.queued, hitems, List.append_nil]
  have happlied : (applied h).Perm (entered h) := by
    refine perm_of_countP fun p => ?_
    have := hi.applies p
    rw [none_owed _ rfl, htaken] at this
    omega
  have hlength : (applications h).length = (entered h).length := by
    rw [← happlied.length_eq, length_applied]
  refine ⟨htaken, happlied, (List.reverse_perm _).trans (perm_of_countP fun p => ?_), ?_, ?_, ?_,
    hi.alive⟩
  · have := hi.sends p
    rw [none_owed _ rfl] at this
    omega
  · have := hi.submitted
    omega
  · have := hi.counts
    rw [none_owed _ rfl] at this
    omega
  · have := hi.tallies
    rw [none_owed _ rfl] at this
    omega

theorem Settled.summarise_eq {s : System σ} {h : List Happening} (hs : Settled s h) :
    summarise s.core s.workers = .ok (listed s.core) := by
  refine Pool.summarise_eq hs.alive ?_
  have := hs.outcomes.length_eq
  have := hs.applied.length_eq
  simp only [List.length_reverse, List.length_map, length_applied] at *
  rw [hs.submitted]
  omega

/-! ### What a summary tells -/

/-- The result of a summary is the writes, and no chunk failed; or it names a failed chunk with a number
that no other failed chunk goes below. -/
def TellsFirst (summary : WriteSummary) (runs : List (Chunk × Except FilterError ChunkWrite)) : Prop :=
  (summary.result = .ok summary.written ∧ ∀ chunk error, (chunk, .error error) ∉ runs) ∨
    ∃ chunk cause, (chunk, .error cause) ∈ runs ∧
      (∀ other reason, (other, .error reason) ∈ runs → chunk.index ≤ other.index) ∧
      summary.result = .error (cause.within (.chunkAt chunk.index chunk.offset))

/-- A summary tells what became of the accepted chunks, `runs` being the applications of the function
with their outcomes: each chunk was applied once and its outcome is listed once, in the order of the
chunks' numbers, and all counts are the number of accepted chunks. -/
structure Tells (summary : WriteSummary)
    (runs : List (Chunk × Except FilterError ChunkWrite)) (accepted : List Chunk) : Prop where
  applied : (runs.map Prod.fst).Perm accepted
  written : summary.written.Perm (writes (runs.map outcomeAt))
  failures : summary.failures.Perm (failures (runs.map outcomeAt))
  written_sorted : summary.written.Pairwise fun a b => a.index ≤ b.index
  failures_sorted : summary.failures.Pairwise fun a b => a.index ≤ b.index
  submitted : summary.submitted = accepted.length
  completed : summary.completed = accepted.length
  tasks : total id summary.tasks = accepted.length
  result : TellsFirst summary runs

/-- A summary whose failures are those of `runs`, in the order of their numbers. -/
theorem tellsFirst_of_failures {summary : WriteSummary}
    {runs : List (Chunk × Except FilterError ChunkWrite)}
    (hsorted : summary.failures.Pairwise fun a b => a.index ≤ b.index)
    (hmem : ∀ f, f ∈ summary.failures ↔
      ∃ chunk error, (chunk, .error error) ∈ runs ∧ f = ⟨chunk.index, chunk.offset, error⟩) :
    TellsFirst summary runs := by
  unfold TellsFirst WriteSummary.result
  rcases hlist : summary.failures with - | ⟨failure, rest⟩
  · left
    refine ⟨rfl, fun chunk error hrun => ?_⟩
    have := (hmem _).2 ⟨chunk, error, hrun, rfl⟩
    simp [hlist] at this
  · right
    obtain ⟨chunk, cause, hrun, rfl⟩ := (hmem failure).1 (by simp [hlist])
    refine ⟨chunk, cause, hrun, fun other reason hother => ?_, rfl⟩
    have hother' := (hmem _).2 ⟨other, reason, hother, rfl⟩
    rw [hlist] at hsorted hother'
    rcases List.mem_cons.1 hother' with heq | hrest
    · exact Nat.le_of_eq (congrArg ChunkFailure.index heq).symm
    · exact List.rel_of_pairwise_cons hsorted hrest

/-- **A settled pool's summary tells what became of the chunks that entered the queue.** -/
theorem Settled.tells {s : System σ} {h : List Happening} (hs : Settled s h) {accepted : List Chunk}
    (ha : (entered h).Perm accepted) : Tells (listed s.core) (applications h) accepted := by
  have hwritten : (listed s.core).written.Perm (writes ((applications h).map outcomeAt)) :=
    (List.mergeSort_perm _ _).trans (hs.outcomes.filterMap _)
  have hfailures : (listed s.core).failures.Perm (failures ((applications h).map outcomeAt)) :=
    (List.mergeSort_perm _ _).trans (hs.outcomes.filterMap _)
  have hsorted : (listed s.core).failures.Pairwise fun a b => a.index ≤ b.index :=
    pairwise_mergeSort_by ChunkFailure.index _
  refine ⟨hs.applied.trans ha, hwritten, hfailures, pairwise_mergeSort_by ChunkWrite.index _,
    hsorted, hs.submitted.trans ha.length_eq, hs.completed.trans ha.length_eq,
    hs.tasks.trans ha.length_eq, ?_⟩
  exact tellsFirst_of_failures hsorted fun f => hfailures.mem_iff.trans mem_failures

end FilteredChunks.Pool
