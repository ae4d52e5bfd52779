import FilteredChunks.Proofs.Engine.Accepting
import FilteredChunks.Proofs.Engine.Askers
import FilteredChunks.Proofs.Gating.Refusals

/-!
# Refusals are honoured

A writer that leaves out what gating has refused asks for nothing on behalf of a refused step, and it
stores the refusals in the mask of every chunk.  Reading the chunk with this mask asks for nothing on
behalf of a refused step either, and with lawful codecs gives the data back (`honours_of_prepare`).
-/

namespace FilteredChunks

namespace ChunkWriter

open Engine (IsForOneOf withAskers)

variable {σ τ : Type} [ChunkStore σ] [CodecSource τ] {w : ChunkWriter} {chunk : Chunk} {store : σ}
  {write : ChunkWrite}

theorem exists_run_of_apply (h : (w.apply chunk store).result = .ok write) :
    ∃ outcome bytes,
      (Engine.run w.pipeline w.options w.codecs (.ofBytes chunk.data)).result = .ok outcome ∧
      (Engine.run w.pipeline w.options w.codecs (.ofBytes chunk.data)).buffer.valid? = some bytes ∧
      write.mask = outcome.mask ∧
      (w.apply chunk store).store = ChunkStore.put store chunk.offset outcome.mask bytes := by
  unfold apply at *
  dsimp only at *
  generalize Engine.run w.pipeline w.options w.codecs (.ofBytes chunk.data) = run at h ⊢
  rcases hresult : run.result with fault | outcome
  · rw [hresult] at h
    cases h
  rw [hresult] at h
  dsimp only at h
  rcases hvalid : run.buffer.valid? with - | bytes
  · rw [hvalid] at h
    cases h
  rw [hvalid] at h
  dsimp only at h
  split at h
  · cases h
  next htaken =>
  cases h
  refine ⟨outcome, bytes, rfl, rfl, rfl, ?_⟩
  dsimp only
  rw [htaken]

theorem events_apply (w : ChunkWriter) (chunk : Chunk) (store : σ) :
    (w.apply chunk store).events =
      (Engine.run w.pipeline w.options w.codecs (.ofBytes chunk.data)).events := by
  unfold apply
  dsimp only
  split
  · rfl
  split
  · rfl
  split <;> rfl

/-- What refusals come to for a chunk that was written, and for reading it back.  Every refused step is
an optional one and is marked in the mask that is stored; neither writing nor reading asks for anything on
behalf of a refused step; and nothing is lost with codecs that are lawful. -/
structure Honours (w : ChunkWriter) (refused : FilterMask) (chunk : Chunk) (store : σ)
    (write : ChunkWrite) (source' : τ) : Prop where
  optional : ∀ i, refused.isSet i = true →
    ∃ step, w.pipeline.get? i = some step ∧ step.isOptional = true
  marked : ∀ i, refused.isSet i = true → write.mask.isSet i = true
  written : ∀ a ∈ withAskers none (w.apply chunk store).events,
    IsForOneOf w.options refused w.pipeline.steps.zipIdx a
  stored : ∃ bytes,
    (w.apply chunk store).store = ChunkStore.put store chunk.offset write.mask bytes ∧
    (∀ a ∈ withAskers none (Engine.decode w.pipeline source' bytes write.mask).events,
      IsForOneOf .read refused w.pipeline.steps.zipIdx a) ∧
    (w.onFailure = none →
      (∀ index step, w.pipeline.get? index = some step →
        CodecSource.codec source' index step = CodecSource.codec w.codecs index step) →
      (∀ index step c, w.pipeline.get? index = some step →
        CodecSource.codec w.codecs index step = some c → c.codec.IsLawful) →
      (Engine.decode w.pipeline source' bytes write.mask).restored = .ok chunk.data)

/-- **A refusal is honoured through to reading back.** -/
theorem honours_of_prepare {list : DatasetCreation} (hlist : list.pipeline.Built)
    {datatype : Datatype} {r : FilterRegistry} {refused : FilterMask}
    (hprepare : (Gating.prepare list datatype r).result = .ok refused)
    (hpipeline : w.pipeline = (Gating.prepare list datatype r).list.pipeline)
    (hexclude : w.exclude = refused) (h : (w.apply chunk store).result = .ok write) (source' : τ) :
    w.Honours refused chunk store write source' := by
  obtain ⟨outcome, bytes, hresult, hbytes, hmask, hput⟩ := exists_run_of_apply h
  have hsound : w.pipeline.Sound := by
    rw [hpipeline]
    exact hlist.sound.of_retuned (Gating.retuned_prepare list datatype r)
  have hmarked (i : Nat) (hi : refused.isSet i = true) : write.mask.isSet i = true := by
    rw [← hexclude] at hi
    rw [hmask]
    exact Engine.isSet_of_run hresult hi
  refine ⟨fun i hi => ?_, hmarked, fun a ha => ?_, bytes, hmask ▸ hput, fun a ha => ?_, ?_⟩
  · rw [hpipeline]
    exact Gating.optional_of_prepare hprepare hi
  · rw [events_apply] at ha
    rw [← hexclude]
    exact Engine.isForOneOf_of_mem_run ha
  · exact (Engine.isForOneOf_of_mem_run ha).mono hmarked
  · intro hno same lawful
    rw [hmask]
    exact Engine.restored_of_run (Engine.reversible_of_sound hsound same lawful) rfl hno hresult
      hbytes

/-! ### A chunk with refused steps -/

/-- A class that never fits, though its codec would apply. -/
def neverFitting : FilterClass :=
  .ofCodec 300 "never" (.ofSample (.appending 1) .never .keep) (.application 0)

/-- A class that fits and tunes its step. -/
def tuning : FilterClass :=
  .ofCodec 301 "append" (.ofSample (.appending 7) .always .oneMore) (.application 1)

/-- Two steps with the number of the class that never fits, around one that is tuned. -/
def refusingList : DatasetCreation where
  isDefault := false
  layout := .chunked [2]
  pipeline :=
    ⟨[.ofWords 300 .optional [], .ofWords 301 .mandatory [5], .ofWords 300 .optional []], 32⟩

theorem built_refusingList : refusingList.pipeline.Built := by
  have h₁ : FilterPipeline.Built ⟨refusingList.pipeline.steps.take 1, 32⟩ :=
    .push .empty (.ofWords 300 .optional []) rfl
  have h₂ : FilterPipeline.Built ⟨refusingList.pipeline.steps.take 2, 32⟩ :=
    .push h₁ (.ofWords 301 .mandatory [5]) rfl
  exact .push h₂ (.ofWords 300 .optional []) rfl

theorem honours_of_prepare_twice :
    let prepared := Gating.prepare refusingList .int32 ⟨[neverFitting, tuning], 32, none, false⟩
    let codecs (mode : OpenMode) : CodecTable := ⟨mode, [neverFitting, tuning, neverFitting]⟩
    let w : ChunkWriter := ⟨prepared.list.pipeline, codecs .write, ⟨5⟩, none⟩
    let chunk : Chunk := ⟨0, [0], [1, 2]⟩
    let write : ChunkWrite := ⟨0, [0], 2, 3, ⟨5⟩⟩
    refusingList.pipeline.Built ∧ prepared.result = .ok ⟨5⟩ ∧
      (∀ c ∈ w.codecs.classes, c.codec.IsLawful) ∧
      (w.apply chunk MemoryStore.empty).result = .ok write ∧
      (Engine.decode w.pipeline (codecs .read) [1, 2, 7] write.mask).restored = .ok [1, 2] ∧
      w.Honours ⟨5⟩ chunk MemoryStore.empty write (codecs .read) := by
  refine ⟨built_refusingList, by rfl, ?_, by rfl, by rfl,
    honours_of_prepare built_refusingList (by rfl) rfl rfl (by rfl) _⟩
  intro c hc
  simp only [List.mem_cons, List.not_mem_nil, or_false] at hc
  rcases hc with rfl | rfl | rfl
  · exact Engine.isLawful_appending 1 .never .keep
  · exact Engine.isLawful_appending 7 .always .oneMore
  · exact Engine.isLawful_appending 1 .never .keep

end ChunkWriter

end FilteredChunks
