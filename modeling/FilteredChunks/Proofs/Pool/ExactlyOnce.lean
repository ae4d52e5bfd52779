import FilteredChunks.Proofs.Pool.Summary

/-!
# Every accepted chunk is processed exactly once

The main statement about pools: whatever is requested by however many callers, however the steps of
callers and workers interleave, and whatever the function makes of a chunk, the chunks that were
accepted are those that the function is applied to, each as often as it was accepted.  Closing a pool
comes to an end and gives a summary of them all.
-/

namespace FilteredChunks.Pool

variable {σ : Type}

/-- The requests of some callers and of the one that closes the pool. -/
def withClosing (calls : List (List Call)) : List (List Call) := calls ++ [[.shutdown]]

/-- What holds of a pool with history `h` at any moment. -/
structure ExactlyOnce (job : Job σ) (shared : σ) (calls : List (List Call)) (s : System σ)
    (h : List Happening) : Prop where
  ends : ends h ≤ 1
  completed : s.core.completed ≤ s.core.submitted
  /-- A chunk is applied no more often than it was accepted; never, if it was refused. -/
  applied : (applied h).Subperm (acceptedFrom calls (s.callers.map Caller.given))
  /-- The outcomes of the applications are those of the function. -/
  outcomes : Serial job shared (applications h) s.core.shared
  /-- Once closed, all requests are answered and the pool sums up without an error. -/
  closed : s.IsClosed →
    List.Forall₂ (fun requests c => c.answers.length = requests.length) calls s.callers ∧
      ∃ summary, summarise s.core s.workers = .ok summary ∧
        Tells summary (applications h) (acceptedFrom calls (s.callers.map Caller.answers))

theorem Caller.Follows.answered {c : Caller} {calls : List Call} (h : c.Follows calls)
    (hphase : c.phase = .idle) (hcalls : c.calls = []) : c.answers.length = calls.length := by
  obtain ⟨done, rest, rfl, hlen, hrest⟩ := h
  simp only [Caller.Unanswered, hphase, hcalls] at hrest
  rw [← hlen, hrest, List.append_nil]

theorem answered_of_idle {calls : List (List Call)} {callers : List Caller}
    (h : List.Forall₂ (fun requests c => c.Follows requests) calls callers)
    (hdone : ∀ c ∈ callers, c.phase = .idle ∧ c.calls = []) :
    List.Forall₂ (fun requests c => c.answers.length = requests.length) calls callers := by
  induction h with
  | nil => exact .nil
  | cons hc _ ih =>
    obtain ⟨hphase, hcalls⟩ := hdone _ List.mem_cons_self
    exact .cons (hc.answered hphase hcalls) (ih fun c hmem => hdone c (List.mem_cons_of_mem _ hmem))

/-- What entered the queue of a closed pool are the chunks whose submission was answered well. -/
theorem Accounts.accepted_of_closed {job : Job σ} {spawned : List Bool} {shared : σ}
    {calls : List (List Call)} {s : System σ} {h : List Happening}
    (hi : Accounts job spawned shared calls s h) (hc : s.IsClosed) :
    (entered h).Perm (acceptedFrom calls (s.callers.map Caller.answers)) := by
  have hgiven : s.callers.map Caller.given = s.callers.map Caller.answers :=
    List.map_congr_left fun c hmem => by rw [Caller.given, (hc.callers c hmem).1]
  exact hgiven ▸ perm_of_countP hi.accepts

theorem Accounts.toExactlyOnce {job : Job σ} {spawned : List Bool} {shared : σ}
    {calls : List (List Call)} {s : System σ} {h : List Happening}
    (hi : Accounts job spawned shared calls s h) (hs : true ∈ spawned) :
    ExactlyOnce job shared calls s h := by
  have haccepted : (entered h).Perm (acceptedFrom calls (s.callers.map Caller.given)) :=
    perm_of_countP hi.accepts
  have happlied : (applied h).Subperm (taken h) := by
    refine subperm_of_countP fun p => ?_
    have := hi.applies p
    omega
  have htaken : (taken h).Subperm (entered h) := by
    rw [hi.queued]
    exact (List.sublist_append_left _ _).subperm
  refine ⟨?_, ?_, (happlied.trans htaken).trans haccepted.subperm, hi.serial, fun hc => ⟨?_, ?_⟩⟩
  · have := hi.once
    omega
  · have := hi.counts
    have := hi.submitted
    have := happlied.length_le
    have := htaken.length_le
    rw [length_applied] at *
    omega
  · exact answered_of_idle hi.follows hc.callers
  · have hsettled := hi.settled hs hc
    exact ⟨_, hsettled.summarise_eq, hsettled.tells (hi.accepted_of_closed hc)⟩

/-- **Every accepted chunk is processed exactly once.**  Of a pool with at least one worker, whose hooks
do not crash and which one more caller than those given closes: after every schedule `ExactlyOnce`
holds, and every schedule that gives each caller and each worker a turn again and again closes it. -/
theorem System.exactlyOnce {job : Job σ} (hq : job.telemetry.Quiet) {spawned : List Bool}
    (hs : true ∈ spawned) (shared : σ) (metrics : Metrics.Store) (calls : List (List Call)) :
    (∀ schedule : List Actor, ExactlyOnce job shared (withClosing calls)
      ((System.spawn spawned shared metrics (withClosing calls)).run job schedule)
      ((System.spawn spawned shared metrics (withClosing calls)).history job schedule)) ∧
    ∀ turns : Nat → Actor, Fair (calls.length + 1) spawned.length turns →
      ∃ n, ((System.spawn spawned shared metrics (withClosing calls)).after job turns n).IsClosed := by
  have hne : spawned ≠ [] := List.ne_nil_of_mem hs
  refine ⟨fun schedule => (Accounts.run hq hne metrics schedule).toExactlyOnce hs, ?_⟩
  intro turns hfair
  have hends : EndsSometime (withClosing calls) := ⟨_, by simp [withClosing], List.mem_singleton_self _⟩
  refine closes_of_fair hq hends _ ⟨[], Accounts.start job hne shared metrics _⟩ turns ?_
  simpa [System.spawn, withClosing] using hfair

/-- A job that accepts chunks with an even number and crashes on the others. -/
def pickyJob : Job Unit where
  apply := fun _ chunk _ =>
    ⟨if chunk.index % 2 = 0 then .ok ⟨chunk.index, chunk.offset, chunk.data.length, 0, .empty⟩
      else .error .crash, (), []⟩
  telemetry := .standard

/-- Two callers, one of whom also shuts the pool down. -/
def twoCallers : List (List Call) :=
  [[.submit ⟨0, [0], [1, 2]⟩, .submit ⟨1, [2], [3, 4]⟩], [.submit ⟨2, [4], [5]⟩, .shutdown]]

theorem System.exactlyOnce_twoCallers :
    pickyJob.telemetry.Quiet ∧ true ∈ [false, true] ∧ Fair 3 2 (roundRobin 3 2) ∧
    ∃ (n : Nat) (summary : WriteSummary),
      let s := (System.spawn [false, true] () .empty (withClosing twoCallers)).after pickyJob
        (roundRobin 3 2) n
      summarise s.core s.workers = .ok summary ∧
        ∃ runs, Tells summary runs
          (acceptedFrom (withClosing twoCallers) (s.callers.map Caller.answers)) := by
  have hq : pickyJob.telemetry.Quiet := fun _ => rfl
  have hs : true ∈ [false, true] := by decide
  obtain ⟨honce, hcloses⟩ := System.exactlyOnce hq hs () .empty twoCallers
  obtain ⟨n, hn⟩ := hcloses _ (fair_roundRobin 3 2)
  obtain ⟨-, summary, hsummary, htells⟩ := (honce _).closed hn
  exact ⟨hq, hs, fair_roundRobin 3 2, n, summary, hsummary, _, htells⟩

end FilteredChunks.Pool
