import FilteredChunks.Proofs.Engine.RoundTrip
import FilteredChunks.Proofs.Pool.InTurn
import FilteredChunks.Proofs.Writer.Sequential

/-!
# Writing in parallel and one after the other

A pool that applies a writer is compared with the plain loop `applyAll`.  At every moment of every run
the chunks done so far went into the store one after the other (`applyAll_of_serial`).  With a single
worker that is the order of submission; with more, the order does not matter if the chunks have
different offsets and numbers.  Either way the summary and the store are those of the loop
(`likeLoop_of_closed`), for every schedule and so for `writeChunks`, which is one of them.
-/

namespace FilteredChunks.ChunkWriter

open Pool

/-- Chunks with different offsets and different numbers. -/
def Distinct (chunks : List Chunk) : Prop :=
  (chunks.map Chunk.offset).Nodup ∧ (chunks.map Chunk.index).Nodup

/-- A summary and a store are those of the loop over `chunks`, its writes and failures sorted by the
numbers of the chunks. -/
structure LikeLoop (w : ChunkWriter) (chunks : List Chunk) (store : MemoryStore)
    (summary : WriteSummary) (store' : MemoryStore) : Prop where
  stored : store' = (w.applyAll chunks store).2
  written : summary.written =
    (writes (w.applyAll chunks store).1).mergeSort fun a b => decide (a.index ≤ b.index)
  failures : summary.failures =
    (failures (w.applyAll chunks store).1).mergeSort fun a b => decide (a.index ≤ b.index)
  submitted : summary.submitted = chunks.length
  completed : summary.completed = chunks.length

variable {w : ChunkWriter}

/-! ### Runs as loops -/

theorem applyAll_of_serial {σ : Type} [ChunkStore σ] {s s' : WriterState σ}
    {runs : List (Chunk × Except FilterError ChunkWrite)} (h : Serial w.job s runs s') :
    w.applyAll (runs.map Prod.fst) s.store = (runs.map outcomeAt, s'.store) := by
  induction h with
  | nil s => rfl
  | @cons s s' rest worker chunk _ ih =>
    obtain ⟨store, events⟩ := s
    rw [List.map_cons, applyAll]
    dsimp only [job] at ih ⊢
    rw [ih]
    rfl

theorem likeLoop_in_order {chunks : List Chunk} {store : MemoryStore}
    {core : Core (WriterState MemoryStore)}
    (hloop : w.applyAll chunks store = (core.outcomes.reverse, core.shared.store))
    (hsubmitted : core.submitted = chunks.length) (hcompleted : core.completed = chunks.length) :
    LikeLoop w chunks store (listed core) core.shared.store := by
  refine ⟨?_, ?_, ?_, hsubmitted, hcompleted⟩
  all_goals rw [hloop]
  all_goals rfl

/-- Outcomes in any order sum up like the loop, if the chunks are different. -/
theorem likeLoop_of_distinct {chunks done : List Chunk} (hp : done.Perm chunks) (hd : Distinct chunks)
    {store : MemoryStore} {core : Core (WriterState MemoryStore)} {outcomes : List ChunkOutcome}
    (hloop : w.applyAll done store = (outcomes, core.shared.store))
    (houtcomes : core.outcomes.reverse.Perm outcomes)
    (hsubmitted : core.submitted = chunks.length) (hcompleted : core.completed = chunks.length) :
    LikeLoop w chunks store (listed core) core.shared.store := by
  rw [applyAll_memory, Prod.mk.injEq] at hloop
  obtain ⟨rfl, hstore⟩ := hloop
  have hperm : (chunks.map w.outcome).Perm core.outcomes.reverse :=
    (hp.map w.outcome).symm.trans houtcomes.symm
  refine ⟨?_, ?_, ?_, hsubmitted, hcompleted⟩
  all_goals rw [applyAll_memory]
  · rw [← hstore]
    exact (w.foldl_keep_of_perm hp.symm hd.1 store).symm
  · exact (mergeSort_eq_of_perm ChunkWrite.index (hperm.filterMap _) (writes_inj hd.2)).symm
  · exact (mergeSort_eq_of_perm ChunkFailure.index (hperm.filterMap _) (failures_inj hd.2)).symm

/-! ### Closed pools -/

theorem quiet_job {σ : Type} [ChunkStore σ] (w : ChunkWriter) : (w.job (σ := σ)).telemetry.Quiet :=
  fun _ => rfl

section

variable {spawned : List Bool} {chunks : List Chunk} {store : MemoryStore}
  {s : System (WriterState MemoryStore)} {h : List Happening}

theorem applyAll_applied {calls : List (List Call)}
    (hi : Accounts w.job spawned ⟨store, []⟩ calls s h) :
    w.applyAll (applied h) store = ((applications h).map outcomeAt, s.core.shared.store) :=
  applyAll_of_serial hi.serial

/-- **A closed pool has done what the loop does**, with a single worker or with different chunks. -/
theorem likeLoop_of_closed (hi : Accounts w.job spawned ⟨store, []⟩ [submitThenClose chunks] s h)
    (hcaller : SoleCaller chunks s h) (hworker : spawned.length = 1 → SoleWorker s h)
    (hs : true ∈ spawned) (hd : spawned.length = 1 ∨ Distinct chunks) (hc : s.IsClosed) :
    LikeLoop w chunks store (listed s.core) s.core.shared.store := by
  have hsettled := hi.settled hs hc
  have hloop := applyAll_applied hi
  obtain ⟨hentered, -⟩ := entered_of_closed hcaller hc
  have hsubmitted : s.core.submitted = chunks.length := hentered ▸ hsettled.submitted
  have hcompleted : s.core.completed = chunks.length := hentered ▸ hsettled.completed
  rcases hd with hone | hd
  · obtain ⟨happlied, hsent⟩ := sent_of_closed (hworker hone) hi hc
    rw [happlied, hsettled.taken, hentered, ← hsent] at hloop
    exact likeLoop_in_order hloop hsubmitted hcompleted
  · have hperm : (applied h).Perm chunks := hentered ▸ hsettled.applied
    exact likeLoop_of_distinct hperm hd hloop hsettled.outcomes hsubmitted hcompleted

end

/-! ### Single applications -/

/-- What applying a writer to a chunk may do to a memory store: nothing, if the chunk fails, and
otherwise to put bytes under the chunk's offset, as many as the write tells and with the mask that it
tells. -/
structure AppliesCleanly (w : ChunkWriter) (chunk : Chunk) (store : MemoryStore) : Prop where
  failed : ∀ fault, (w.apply chunk store).result = .error fault → (w.apply chunk store).store = store
  written : ∀ write, (w.apply chunk store).result = .ok write → ∃ bytes : Bytes,
    (w.apply chunk store).store = store.write chunk.offset write.mask bytes ∧
      write = ⟨chunk.index, chunk.offset, chunk.data.length, bytes.length, write.mask⟩

theorem appliesCleanly (w : ChunkWriter) (chunk : Chunk) (store : MemoryStore) :
    w.AppliesCleanly chunk store := by
  obtain ⟨hresult, hstore⟩ := w.apply_memory chunk store
  constructor
  all_goals
    rw [hresult, hstore, keep]
    rcases w.filtered chunk with fault | ⟨mask, bytes⟩
  · exact fun _ _ => rfl
  · exact nofun
  · exact nofun
  · intro write hwrite
    cases hwrite
    exact ⟨bytes, rfl, rfl⟩

/-! ### The pool without interleaving -/

theorem reaches_submitAll {τ : Type} {start : System τ} {job : Job τ}
    (hok : ∀ s, start.Reaches job s → ∀ c ∈ s.callers, ∀ answer ∈ c.answers, answer = .ok ())
    (chunks : List Chunk) (pool : Pool τ) (hjob : pool.job = job)
    (answers : List (Except FilterError Unit))
    (hr : start.Reaches job (withCaller pool chunks answers)) :
    ∃ answers', (submitAll pool chunks).1 = .ok () ∧ (submitAll pool chunks).2.job = job ∧
      start.Reaches job (withCaller (submitAll pool chunks).2 [] answers') := by
  induction chunks generalizing pool answers with
  | nil => exact ⟨answers, rfl, hjob, hr⟩
  | cons chunk chunks ih =>
    obtain ⟨answers', hanswer, hsubmit⟩ := reaches_submit pool chunk chunks answers
    rw [hjob] at hsubmit
    have hgood : (pool.submit chunk).1 = .ok () := by
      rw [hanswer]
      cases answers' with
      | nil => rfl
      | cons answer rest =>
        refine hok _ (hr.trans hsubmit) _ (List.mem_singleton_self _) answer ?_
        simp
    have hrest := ih (pool.submit chunk).2 hjob _ (hr.trans hsubmit)
    rcases hpool : pool.submit chunk with ⟨answer, pool'⟩
    rw [hpool] at hgood hrest
    simp only at hgood
    subst hgood
    simpa only [submitAll, hpool] using hrest

section

variable {σ : Type} [ChunkStore σ]

theorem answers_run (w : ChunkWriter) {spawned : List Bool} (hs : true ∈ spawned)
    (chunks : List Chunk) (store : σ) (metrics : Metrics.Store) (schedule : List Actor) :
    ∀ c ∈ ((System.spawn spawned ⟨store, []⟩ metrics [submitThenClose chunks]).run w.job
      schedule).callers, ∀ answer ∈ c.answers, answer = .ok () := by
  have hcaller : SoleCaller chunks
      ((System.spawn spawned ⟨store, []⟩ metrics [submitThenClose chunks]).run w.job schedule)
      ((System.spawn spawned ⟨store, []⟩ metrics [submitThenClose chunks]).history w.job schedule) :=
    soleCaller_run w.quiet_job (List.ne_nil_of_mem hs) metrics chunks schedule
  obtain ⟨c, hcallers, hsubmits⟩ := hcaller
  intro c' hmem
  rw [hcallers, List.mem_singleton] at hmem
  exact hmem ▸ hsubmits.answers

theorem spawn_eq_withCaller (w : ChunkWriter) (workers : Nat) (chunks : List Chunk) (store : σ)
    (metrics : Metrics.Store) :
    System.spawn (List.replicate (max workers 1) true) (⟨store, []⟩ : WriterState σ) metrics
        [submitThenClose chunks] =
      withCaller (.start w.job workers ⟨store, []⟩ metrics) chunks [] := by
  simp [System.spawn, withCaller, Pool.start, Core.start, Caller.start]

/-- **Writing chunks on a pool is a run to a closed pool.** -/
theorem writeChunks_closes (w : ChunkWriter) {workers : Nat} (hw : workers ≤ Pool.maxWorkers)
    (chunks : List Chunk) (store : σ) (metrics : Metrics.Store) :
    ∃ schedule s, (System.spawn (List.replicate (max workers 1) true) (⟨store, []⟩ : WriterState σ)
        metrics [submitThenClose chunks]).run w.job schedule = s ∧ s.IsClosed ∧
      (w.writeChunks workers chunks store metrics).result =
        (summarise s.core s.workers).mapError .failure ∧
      (w.writeChunks workers chunks store metrics).store = s.core.shared.store := by
  have hs : true ∈ List.replicate (max workers 1) true := by simp
  have hstart := spawn_eq_withCaller w workers chunks store metrics
  generalize hpool : Pool.start w.job workers ⟨store, []⟩ metrics = pool at hstart
  have hjob : pool.job = w.job := hpool ▸ rfl
  have hok (s : System (WriterState σ))
      (hr : (System.spawn (List.replicate (max workers 1) true) ⟨store, []⟩ metrics
        [submitThenClose chunks]).Reaches w.job s) :
      ∀ c ∈ s.callers, ∀ answer ∈ c.answers, answer = .ok () := by
    obtain ⟨schedule, rfl⟩ := hr
    exact w.answers_run hs chunks store metrics schedule
  obtain ⟨answers, hsubmitted, hjob', hr⟩ :=
    reaches_submitAll hok chunks pool hjob [] (hstart ▸ .refl _ _)
  obtain ⟨caller, hphase, hcalls, hshutdown, hclose, hclosed⟩ :=
    reaches_close (submitAll pool chunks).2 answers
  rw [hjob'] at hshutdown hclose
  have hqueue : (submitAll pool chunks).2.shutdown.core.queue.closed = true := by
    obtain ⟨schedule, hrun⟩ := hr.trans hshutdown
    have hi : Accounts w.job _ ⟨store, []⟩ [submitThenClose chunks] _ _ :=
      Accounts.run w.quiet_job (List.ne_nil_of_mem hs) metrics schedule
    have hends : EndsSometime [submitThenClose chunks] :=
      ⟨_, List.mem_singleton_self _, by simp [submitThenClose]⟩
    have hdone := hi.closed_of_answered hends
    rw [hrun] at hdone
    refine hdone fun c hmem => ?_
    rw [List.mem_singleton.1 hmem]
    exact ⟨hphase, hcalls⟩
  obtain ⟨schedule, hrun⟩ := hr.trans hclose
  have hwrite : w.writeChunks workers chunks store metrics =
      { result := (summarise (submitAll pool chunks).2.close.2.core
          (submitAll pool chunks).2.close.2.workers).mapError .failure
        store := (submitAll pool chunks).2.close.2.core.shared.store
        events := (submitAll pool chunks).2.close.2.core.shared.runs.reverse.flatten
        metrics := (submitAll pool chunks).2.close.2.core.metrics } := by
    rw [writeChunks, if_neg (Nat.not_lt.2 hw), hpool]
    rcases hsubmit : submitAll pool chunks with ⟨answer, pool'⟩
    rw [hsubmit] at hsubmitted
    simp only at hsubmitted
    subst hsubmitted
    rfl
  exact ⟨schedule, _, hrun, hclosed hqueue, by rw [hwrite], by rw [hwrite]⟩

end

/-! ### Main statement -/

/-- The pool of a writer whose caller submits `chunks` and closes it. -/
def system (spawned : List Bool) (chunks : List Chunk) (store : MemoryStore)
    (metrics : Metrics.Store) : System (WriterState MemoryStore) :=
  .spawn spawned ⟨store, []⟩ metrics [submitThenClose chunks]

/-- What holds of the pool of a writer with history `h` at any moment. -/
structure WritesLikeLoop (w : ChunkWriter) (spawned : List Bool) (chunks : List Chunk) (store : MemoryStore)
    (s : System (WriterState MemoryStore)) (h : List Happening) : Prop where
  /-- The chunks done so far went into the store one after the other. -/
  loop : w.applyAll (applied h) store = ((applications h).map outcomeAt, s.core.shared.store)
  /-- No submission is refused. -/
  answers : ∀ c ∈ s.callers, ∀ answer ∈ c.answers, answer = .ok ()
  closed : s.IsClosed → ∃ summary, summarise s.core s.workers = .ok summary ∧
    (applied h).Perm chunks ∧
    (spawned.length = 1 ∨ Distinct chunks → LikeLoop w chunks store summary s.core.shared.store)

theorem writesLikeLoop_run (w : ChunkWriter) {spawned : List Bool} (hs : true ∈ spawned)
    (chunks : List Chunk) (store : MemoryStore) (metrics : Metrics.Store) (schedule : List Actor) :
    WritesLikeLoop w spawned chunks store ((system spawned chunks store metrics).run w.job schedule)
      ((system spawned chunks store metrics).history w.job schedule) := by
  have hne : spawned ≠ [] := List.ne_nil_of_mem hs
  have hi : Accounts w.job spawned ⟨store, []⟩ [submitThenClose chunks]
      ((system spawned chunks store metrics).run w.job schedule)
      ((system spawned chunks store metrics).history w.job schedule) :=
    Accounts.run w.quiet_job hne metrics schedule
  have hcaller : SoleCaller chunks ((system spawned chunks store metrics).run w.job schedule)
      ((system spawned chunks store metrics).history w.job schedule) :=
    soleCaller_run w.quiet_job hne metrics chunks schedule
  have hworker (hone : spawned.length = 1) : SoleWorker
      ((system spawned chunks store metrics).run w.job schedule)
      ((system spawned chunks store metrics).history w.job schedule) := by
    obtain ⟨started, rfl⟩ := List.length_eq_one_iff.1 hone
    obtain rfl := List.mem_singleton.1 hs
    exact soleWorker_run w.quiet_job metrics _ schedule
  refine ⟨applyAll_applied hi, ?_, fun hc => ?_⟩
  · obtain ⟨c, hcallers, hsubmits⟩ := hcaller
    intro c' hmem
    rw [hcallers, List.mem_singleton] at hmem
    exact hmem ▸ hsubmits.answers
  · have hsettled := hi.settled hs hc
    obtain ⟨hentered, -⟩ := entered_of_closed hcaller hc
    have happlied := hsettled.applied
    rw [hentered] at happlied
    exact ⟨_, hsettled.summarise_eq, happlied,
      fun hd => likeLoop_of_closed hi hcaller hworker hs hd hc⟩

theorem writeChunks_eq (w : ChunkWriter) {workers : Nat} (hw : workers ≤ Pool.maxWorkers)
    (chunks : List Chunk) (store : MemoryStore) (metrics : Metrics.Store) :
    ∃ schedule s, (system (List.replicate (max workers 1) true) chunks store metrics).run w.job
        schedule = s ∧ s.IsClosed ∧
      (w.writeChunks workers chunks store metrics).result =
        (summarise s.core s.workers).mapError .failure ∧
      (w.writeChunks workers chunks store metrics).store = s.core.shared.store :=
  w.writeChunks_closes hw chunks store metrics

/-- **Writing in parallel is writing one after the other.**  A writer's pool with at least one worker,
whose caller submits `chunks` and closes it: at every moment of every run it has done what the loop over
some of the chunks does, every fair schedule closes it, and when it is closed its summary and store are
those of the loop over `chunks`, if it has one worker or the chunks are different.  The same holds of
`writeChunks`, if there is room for the pool.  A chunk that fails never changes the store, and what is told of a chunk that is written
is true of the bytes in the store. -/
theorem parallel_eq_sequential (w : ChunkWriter) {spawned : List Bool} (hs : true ∈ spawned)
    (chunks : List Chunk) (store : MemoryStore) (metrics : Metrics.Store) :
    (∀ schedule, WritesLikeLoop w spawned chunks store
      ((system spawned chunks store metrics).run w.job schedule)
      ((system spawned chunks store metrics).history w.job schedule)) ∧
    (∀ turns, Fair 1 spawned.length turns →
      ∃ n, ((system spawned chunks store metrics).after w.job turns n).IsClosed) ∧
    (∀ workers, Pool.HasRoom workers chunks.length →
      ∃ summary, (w.writeChunks workers chunks store metrics).result = .ok summary ∧
        (workers ≤ 1 ∨ Distinct chunks →
          LikeLoop w chunks store summary (w.writeChunks workers chunks store metrics).store)) ∧
    ∀ chunk store', w.AppliesCleanly chunk store' := by
  have hends : EndsSometime [submitThenClose chunks] :=
    ⟨_, List.mem_singleton_self _, by simp [submitThenClose]⟩
  refine ⟨w.writesLikeLoop_run hs chunks store metrics, ?_, ?_, w.appliesCleanly⟩
  · intro turns hfair
    refine System.closes_of_fair w.quiet_job hends _
      ⟨[], Accounts.start w.job (List.ne_nil_of_mem hs) ⟨store, []⟩ metrics _⟩ turns ?_
    simpa [System.spawn] using hfair
  · intro workers hroom
    obtain ⟨schedule, s, hrun, hclosed, hresult, hstore⟩ :=
      w.writeChunks_eq hroom.le_maxWorkers chunks store metrics
    have hwrites : WritesLikeLoop w (List.replicate (max workers 1) true) chunks store _ _ :=
      w.writesLikeLoop_run (by simp) chunks store metrics schedule
    rw [hrun] at hwrites
    obtain ⟨summary, hsummary, -, hlike⟩ := hwrites.closed hclosed
    refine ⟨summary, by rw [hresult, hsummary]; rfl, fun hd => ?_⟩
    rw [hstore]
    refine hlike (hd.imp_left fun hone => ?_)
    rw [List.length_replicate]
    omega

/-- A writer whose steps apply, are missing and fail. -/
def mixedWriter : ChunkWriter := ⟨⟨Engine.mixedSteps, 32⟩, Engine.mixedTable .write, .empty, none⟩

/-- Three chunks, one of them without bytes, which cannot be filtered. -/
def threeChunks : List Chunk := [⟨2, [0, 4], [1, 2, 3]⟩, ⟨0, [0, 0], []⟩, ⟨1, [0, 2], [4]⟩]

theorem parallel_eq_sequential_mixed :
    true ∈ [false, true, true] ∧ Distinct threeChunks ∧ Pool.HasRoom 3 threeChunks.length ∧
    (∃ (n : Nat) (summary : WriteSummary),
      let s := (system [false, true, true] threeChunks .empty .empty).after mixedWriter.job
        (roundRobin 1 3) n
      summarise s.core s.workers = .ok summary ∧
        LikeLoop mixedWriter threeChunks .empty summary s.core.shared.store) ∧
    ∃ summary, (mixedWriter.writeChunks 3 threeChunks MemoryStore.empty .empty).result = .ok summary ∧
      LikeLoop mixedWriter threeChunks .empty summary
        (mixedWriter.writeChunks 3 threeChunks MemoryStore.empty .empty).store := by
  have hs : true ∈ [false, true, true] := by decide
  have hd : Distinct threeChunks := by
    constructor
    · decide
    · decide
  have hroom : Pool.HasRoom 3 threeChunks.length := by
    constructor
    · decide
    · decide
  obtain ⟨hruns, hcloses, hwrite, -⟩ :=
    parallel_eq_sequential mixedWriter hs threeChunks .empty .empty
  obtain ⟨n, hn⟩ := hcloses _ (fair_roundRobin 1 3)
  obtain ⟨summary, hsummary, -, hlike⟩ := (hruns _).closed hn
  obtain ⟨summary', hresult, hlike'⟩ := hwrite 3 hroom
  exact ⟨hs, hd, hroom, ⟨n, summary, hsummary, hlike (.inr hd)⟩, summary', hresult, hlike' (.inr hd)⟩

end FilteredChunks.ChunkWriter
