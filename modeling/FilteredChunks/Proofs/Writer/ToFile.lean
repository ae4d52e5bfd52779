import FilteredChunks.Proofs.Store.Contents
import FilteredChunks.Proofs.Writer.Parallel

/-!
# Writing to a chunk file

If no chunk can fail, a pool that writes to a new chunk file leaves the file of one write for each chunk
(`holdsChunks_of_closed`).  In which order they are in the file depends on the schedule; what the file
holds does not.
-/

namespace FilteredChunks.ChunkWriter

open Pool

/-- A chunk is filtered to what a write has in it, and a chunk file takes the write. -/
structure Stores (w : ChunkWriter) (chunk : Chunk) (write : StoreWrite) : Prop where
  filtered : w.filtered chunk = .ok (write.mask, write.data)
  offset : write.offset = chunk.offset
  offset_le : write.offset.length ≤ ChunkFile.maxDimensions

variable {w : ChunkWriter} {chunk : Chunk} {write : StoreWrite}

theorem Stores.apply (h : w.Stores chunk write) (writes : List StoreWrite) :
    (w.apply chunk (ChunkFile.fileOf writes)).result =
        .ok (writeOf chunk write.mask write.data) ∧
      (w.apply chunk (ChunkFile.fileOf writes)).store = ChunkFile.fileOf (writes ++ [write]) := by
  obtain ⟨hfiltered, hoffset, hle⟩ := h
  have htaken (mask : FilterMask) (bytes : Bytes) :
      ChunkStore.refusal? (ChunkFile.fileOf writes) chunk.offset mask bytes = none :=
    if_neg (Nat.not_lt.2 (hoffset ▸ hle))
  obtain ⟨hresult, hstore⟩ := w.apply_eq chunk htaken
  rw [hfiltered] at hresult hstore
  refine ⟨hresult, hstore.trans ?_⟩
  rw [← ChunkFile.put_fileOf, hoffset]
  rfl

theorem applyAll_fileOf {stored : Chunk → StoreWrite} {chunks : List Chunk}
    (hstores : ∀ chunk ∈ chunks, w.Stores chunk (stored chunk)) (writes : List StoreWrite) :
    w.applyAll chunks (ChunkFile.fileOf writes) =
      (chunks.map w.outcome, ChunkFile.fileOf (writes ++ chunks.map stored)) := by
  induction chunks generalizing writes with
  | nil => simp [applyAll]
  | cons chunk chunks ih =>
    have hchunk := hstores chunk List.mem_cons_self
    obtain ⟨hresult, hstore⟩ := hchunk.apply writes
    have houtcome : w.outcome chunk = ⟨chunk.index, chunk.offset,
        .ok (writeOf chunk (stored chunk).mask (stored chunk).data)⟩ := by
      rw [outcome, hchunk.filtered]
      rfl
    rw [applyAll, hstore, hresult, ih fun c hc => hstores c (List.mem_cons_of_mem _ hc)]
    simp [houtcome, outcomeOf]

/-! ### Closed pools -/

/-- The pool of a writer whose caller submits `chunks` for a new chunk file and closes it. -/
def fileSystem (spawned : List Bool) (chunks : List Chunk) : System (WriterState ChunkFile) :=
  .spawn spawned ⟨.create, []⟩ .empty [submitThenClose chunks]

/-- A file holds what was made of some chunks, in some order, and a summary tells of no failure. -/
structure HoldsChunks (stored : Chunk → StoreWrite) (chunks : List Chunk) (summary : WriteSummary)
    (f : ChunkFile) : Prop where
  succeeded : summary.result = .ok summary.written
  written : ∃ done : List Chunk, done.Perm chunks ∧ f = ChunkFile.fileOf (done.map stored)

/-- **A closed pool has written every chunk**, if every chunk can be stored. -/
theorem holdsChunks_of_closed {stored : Chunk → StoreWrite} {chunks : List Chunk}
    (hstores : ∀ chunk ∈ chunks, w.Stores chunk (stored chunk)) {spawned : List Bool}
    (hs : true ∈ spawned) {schedule : List Actor} {s : System (WriterState ChunkFile)}
    (hrun : (fileSystem spawned chunks).run w.job schedule = s) (hc : s.IsClosed) :
    ∃ summary, summarise s.core s.workers = .ok summary ∧
      HoldsChunks stored chunks summary s.core.shared.store := by
  subst hrun
  have hne : spawned ≠ [] := List.ne_nil_of_mem hs
  have hi : Accounts w.job spawned ⟨.create, []⟩ [submitThenClose chunks]
      ((fileSystem spawned chunks).run w.job schedule)
      ((fileSystem spawned chunks).history w.job schedule) :=
    Accounts.run w.quiet_job hne .empty schedule
  have hcaller : SoleCaller chunks ((fileSystem spawned chunks).run w.job schedule)
      ((fileSystem spawned chunks).history w.job schedule) :=
    soleCaller_run w.quiet_job hne .empty chunks schedule
  generalize (fileSystem spawned chunks).run w.job schedule = s at hi hcaller hc ⊢
  generalize (fileSystem spawned chunks).history w.job schedule = h at hi hcaller
  have hsettled := hi.settled hs hc
  obtain ⟨hentered, -⟩ := entered_of_closed hcaller hc
  have hperm : (applied h).Perm chunks := hentered ▸ hsettled.applied
  have hloop : w.applyAll (applied h) ChunkFile.create =
      ((applications h).map outcomeAt, s.core.shared.store) := applyAll_of_serial hi.serial
  rw [ChunkFile.create_eq,
    applyAll_fileOf fun chunk hmem => hstores chunk (hperm.mem_iff.1 hmem), List.nil_append,
    Prod.mk.injEq] at hloop
  obtain ⟨houtcomes, hstore⟩ := hloop
  refine ⟨_, hsettled.summarise_eq, ?_, applied h, hperm, hstore.symm⟩
  -- an application that failed would be the outcome of a chunk that can be stored
  rcases (hsettled.tells (.refl _)).result with ⟨hresult, -⟩ | ⟨chunk, cause, hfailed, -⟩
  · exact hresult
  · have hmem := List.mem_map_of_mem (f := outcomeAt) hfailed
    rw [← houtcomes] at hmem
    obtain ⟨chunk', hmem', heq⟩ := List.mem_map.1 hmem
    have hfiltered := (hstores chunk' (hperm.mem_iff.1 hmem')).filtered
    rw [outcome, hfiltered] at heq
    cases congrArg ChunkOutcome.result heq

theorem closes_fileSystem (w : ChunkWriter) {spawned : List Bool} (hs : true ∈ spawned)
    (chunks : List Chunk) {turns : Nat → Actor} (hfair : Fair 1 spawned.length turns) :
    ∃ n, ((fileSystem spawned chunks).after w.job turns n).IsClosed := by
  have hends : EndsSometime [submitThenClose chunks] :=
    ⟨_, List.mem_singleton_self _, by simp [submitThenClose]⟩
  refine System.closes_of_fair w.quiet_job hends _
    ⟨[], Accounts.start w.job (List.ne_nil_of_mem hs) ⟨ChunkFile.create, []⟩ .empty _⟩ turns ?_
  simpa [System.spawn] using hfair

theorem holdsChunks_writeChunks {stored : Chunk → StoreWrite} {chunks : List Chunk}
    (hstores : ∀ chunk ∈ chunks, w.Stores chunk (stored chunk)) {workers : Nat}
    (hw : workers ≤ Pool.maxWorkers) :
    ∃ summary, (w.writeChunks workers chunks ChunkFile.create .empty).result = .ok summary ∧
      HoldsChunks stored chunks summary
        (w.writeChunks workers chunks ChunkFile.create .empty).store := by
  obtain ⟨schedule, s, hrun, hclosed, hresult, hstore⟩ :=
    w.writeChunks_closes hw chunks ChunkFile.create .empty
  obtain ⟨summary, hsummary, hholds⟩ := holdsChunks_of_closed hstores (by simp) hrun hclosed
  refine ⟨summary, ?_, hstore ▸ hholds⟩
  rw [hresult, hsummary]
  rfl

end FilteredChunks.ChunkWriter
