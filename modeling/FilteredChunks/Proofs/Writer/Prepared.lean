import FilteredChunks.ChunkWriter
import FilteredChunks.Proofs.Engine.Marks
import FilteredChunks.Proofs.Table.Resolution

/-!
# Prepared writers

A writer with a table resolved for its pipeline never misses a class.  So of the ways in which writing a
chunk may fail only those are left that the chunk, a codec or the store is to blame for, and a mark in
the mask of a chunk is one that the writer was given or the trace of a codec that was called
(`Reliable`).  The main statement, `resolve_prepare`, puts this together with what a pipeline is resolved
to.
-/

namespace FilteredChunks

theorem CodecTable.Complete.knows [Compression] {t : CodecTable} {p : FilterPipeline} {mode : OpenMode}
    {dir : String} {tree : Plugin.LibraryTree} {r : FilterRegistry}
    (h : Complete t p mode dir tree r) : Engine.Knows p t := by
  intro index step hstep
  obtain ⟨c, -, -, -, hc⟩ := h.entry index step hstep
  exact ⟨c, hc⟩

namespace ChunkWriter

/-- What may become of a chunk that is not written: a crash, nothing in it, a codec that failed or a
store that refused it. -/
inductive Blames {σ : Type} [ChunkStore σ] (w : ChunkWriter) (chunk : Chunk) (store : σ) : Fault → Prop
  | crash : Blames w chunk store .crash
  | empty : Blames w chunk store
      (.failure ((FilterError.invalidArgument .emptyBuffer).within (.filteringChunk chunk.index)))
  | codec (step : FilterStep) (hstep : step ∈ w.pipeline.steps) : Blames w chunk store
      (.failure ((FilterError.writeFailed step.id .returnedFailure).within
        (.filteringChunk chunk.index)))
  | store (mask : FilterMask) (bytes : Bytes) (error : FilterError)
      (h : ChunkStore.refusal? store chunk.offset mask bytes = some error) :
      Blames w chunk store (.failure (error.within (.storingChunk chunk.index)))

/-- What a writer keeps to, whatever the chunk and the store.  No run of it fails for want of a class, and
each mark that it puts into the mask of a chunk is that of a step whose class was called for it. -/
structure Reliable (w : ChunkWriter) : Prop where
  registered : ∀ buffer id, (Engine.run w.pipeline w.options w.codecs buffer).result ≠
    .error (.failure (.writeFailed id .notRegistered))
  blames : ∀ {σ : Type} [ChunkStore σ] (chunk : Chunk) (store : σ) (fault : Fault),
    (w.apply chunk store).result = .error fault → Blames w chunk store fault
  marks : ∀ {σ : Type} [ChunkStore σ] (chunk : Chunk) (store : σ) (write : ChunkWrite),
    (w.apply chunk store).result = .ok write →
    ∀ index, write.mask.isSet index = true → w.exclude.isSet index = false →
      ∃ step c, w.pipeline.get? index = some step ∧ w.codecs.get? index = some c ∧ c.id = step.id ∧
        Engine.CalledInVain w.pipeline w.options w.codecs (.ofBytes chunk.data) index step c

variable {w : ChunkWriter}

theorem reliable_of_knows (h : Engine.Knows w.pipeline w.codecs) : Reliable w := by
  refine ⟨fun buffer id hresult => ?_, fun {σ} _ chunk store fault hfault => ?_,
    fun {σ} _ chunk store write hwrite index hset hexclude => ?_⟩
  · rcases Engine.fault_of_run_write rfl h hresult with hfault | hfault | ⟨step, -, hfault⟩
    · cases hfault
    · cases hfault
    · cases hfault
  · unfold apply at hfault
    dsimp only at hfault
    split at hfault
    · next cause hcause =>
      cases hfault
      rcases Engine.fault_of_run_write rfl h hcause with rfl | rfl | ⟨step, hstep, rfl⟩
      · exact .crash
      · exact .empty
      · exact .codec step hstep
    split at hfault
    · cases hfault
      exact .crash
    split at hfault
    · next error hrefusal =>
      cases hfault
      exact .store _ _ error hrefusal
    · cases hfault
  · unfold apply at hwrite
    dsimp only at hwrite
    split at hwrite
    · cases hwrite
    next outcome houtcome =>
    split at hwrite
    · cases hwrite
    split at hwrite
    · cases hwrite
    cases hwrite
    obtain ⟨step, c, hstep, hc, hcalled⟩ :=
      Engine.calledInVain_of_isSet rfl h houtcome hset hexclude
    obtain ⟨hget, hid⟩ := Option.filter_eq_some_iff.1 hc
    exact ⟨step, c, hstep, hget, by simpa using hid, hcalled⟩

variable [Compression]

theorem complete_of_prepare {p : FilterPipeline} {dir : String} {tree : Plugin.LibraryTree}
    {r : FilterRegistry} (h : prepare p dir tree r = .ok w) :
    w.pipeline = p ∧ w.codecs.Complete p .write dir tree r := by
  unfold prepare at h
  split at h
  · cases h
  next t ht =>
  unfold ofTable at h
  split at h
  · cases h
  split at h
  · cases h
  cases h
  exact ⟨rfl, CodecTable.complete_of_resolve ht⟩

/-- **A pipeline is resolved completely or not at all, and a prepared writer lives up to it.**  Resolving
succeeds exactly if every step is in order, and then the table has the class of each step at its
position; otherwise the failure is that of the first step that is not.  With the table that it is
prepared with, and any exclusions and callback, a writer is reliable. -/
theorem resolve_prepare (p : FilterPipeline) (dir : String) (tree : Plugin.LibraryTree)
    (r : FilterRegistry) :
    (∀ mode,
      ((∃ t, CodecTable.resolve p mode dir tree r = .ok t) ↔
        ∀ step ∈ p.steps, ∃ c, CodecTable.Fits mode dir tree r step c) ∧
      (∀ t, CodecTable.resolve p mode dir tree r = .ok t → t.Complete p mode dir tree r) ∧
      ∀ error, CodecTable.resolve p mode dir tree r = .error error ↔
        CodecTable.FirstMisfit p mode dir tree r error) ∧
    ∀ w, prepare p dir tree r = .ok w → w.pipeline = p ∧ w.codecs.Complete p .write dir tree r ∧
      ∀ exclude onFailure, Reliable { w with exclude := exclude, onFailure := onFailure } := by
  refine ⟨fun mode => ⟨CodecTable.exists_resolve_iff, fun t ht => CodecTable.complete_of_resolve ht,
    fun error => CodecTable.resolve_eq_error_iff⟩, fun w hw => ?_⟩
  obtain ⟨rfl, hcomplete⟩ := complete_of_prepare hw
  exact ⟨rfl, hcomplete, fun exclude onFailure => reliable_of_knows hcomplete.knows⟩

end ChunkWriter

end FilteredChunks
