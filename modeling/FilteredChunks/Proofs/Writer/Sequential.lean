import FilteredChunks.ChunkWriter
import FilteredChunks.Proofs.Engine.Step
import FilteredChunks.Proofs.Pool.Summary
import Mathlib.Data.List.Nodup

/-!
# Writing chunks one after the other

`applyAll` is the plain loop over some chunks that a pool is compared with.  On a memory store what
becomes of a chunk does not depend on the store (`apply_memory`), so that a loop comes apart into the
outcomes and the writes, and writes of chunks with different offsets commute (`foldl_keep_of_perm`).
-/

namespace FilteredChunks

open Pool (ChunkOutcome outcomeOf)

namespace ChunkWriter

/-! ### The loop -/

section Loop

variable {σ : Type} [ChunkStore σ]

/-- Applies a writer to chunks one after the other: what became of each, and the store. -/
def applyAll (w : ChunkWriter) : List Chunk → σ → List ChunkOutcome × σ
  | [], store => ([], store)
  | chunk :: chunks, store =>
    let writing := w.apply chunk store
    let rest := w.applyAll chunks writing.store
    (⟨chunk.index, chunk.offset, outcomeOf chunk writing.result⟩ :: rest.1, rest.2)

end Loop

/-! ### One chunk -/

/-- The bytes of a chunk after filtering, with their mask. -/
def filtered (w : ChunkWriter) (chunk : Chunk) : Except Fault (FilterMask × Bytes) :=
  let run := Engine.run w.pipeline w.options w.codecs (.ofBytes chunk.data)
  match run.result with
  | .error fault => .error (fault.within (.filteringChunk chunk.index))
  | .ok outcome =>
    match run.buffer.valid? with
    | none => .error .crash
    | some bytes => .ok (outcome.mask, bytes)

/-- What is told about a chunk whose bytes went into a store. -/
def writeOf (chunk : Chunk) (mask : FilterMask) (bytes : Bytes) : ChunkWrite :=
  ⟨chunk.index, chunk.offset, chunk.data.length, bytes.length, mask⟩

/-- A memory store after a chunk. -/
def keep (w : ChunkWriter) (store : MemoryStore) (chunk : Chunk) : MemoryStore :=
  match w.filtered chunk with
  | .ok (mask, bytes) => store.write chunk.offset mask bytes
  | .error _ => store

/-- What becomes of a chunk that goes into a memory store. -/
def outcome (w : ChunkWriter) (chunk : Chunk) : ChunkOutcome :=
  ⟨chunk.index, chunk.offset,
    outcomeOf chunk ((w.filtered chunk).map fun x => writeOf chunk x.1 x.2)⟩

/-- What applying a writer to a chunk does with a store that refuses nothing of the kind. -/
theorem apply_eq {σ : Type} [ChunkStore σ] (w : ChunkWriter) (chunk : Chunk) {store : σ}
    (htaken : ∀ mask bytes, ChunkStore.refusal? store chunk.offset mask bytes = none) :
    (w.apply chunk store).result = ((w.filtered chunk).map fun x => writeOf chunk x.1 x.2) ∧
      (w.apply chunk store).store =
        match w.filtered chunk with
        | .ok (mask, bytes) => ChunkStore.put store chunk.offset mask bytes
        | .error _ => store := by
  unfold apply filtered
  dsimp only
  generalize hrun : Engine.run w.pipeline w.options w.codecs (.ofBytes chunk.data) = run
  rcases hresult : run.result with fault | outcome
  · exact ⟨rfl, rfl⟩
  · rcases hvalid : run.buffer.valid? with - | bytes
    · exact ⟨rfl, rfl⟩
    · have hlength : outcome.nbytes = bytes.length := by
        obtain ⟨hle, rfl⟩ := ChunkBuffer.valid?_eq_some_iff.1 hvalid
        rw [ChunkBuffer.toBytes, List.length_take, Nat.min_eq_left hle]
        subst hrun
        exact Engine.nbytes_of_run hresult
      dsimp only
      rw [htaken, hlength]
      exact ⟨rfl, rfl⟩

/-- **What becomes of a chunk does not depend on the memory store it goes into.** -/
theorem apply_memory (w : ChunkWriter) (chunk : Chunk) (store : MemoryStore) :
    (w.apply chunk store).result = ((w.filtered chunk).map fun x => writeOf chunk x.1 x.2) ∧
      (w.apply chunk store).store = w.keep store chunk :=
  w.apply_eq chunk fun _ _ => rfl

theorem applyAll_memory (w : ChunkWriter) (chunks : List Chunk) (store : MemoryStore) :
    w.applyAll chunks store = (chunks.map w.outcome, chunks.foldl w.keep store) := by
  induction chunks generalizing store with
  | nil => rfl
  | cons chunk chunks ih =>
    obtain ⟨hresult, hstore⟩ := w.apply_memory chunk store
    rw [applyAll, hresult, hstore, ih]
    rfl

/-! ### The order of the chunks -/

theorem keep_comm (w : ChunkWriter) (store : MemoryStore) {chunk chunk' : Chunk}
    (h : chunk.offset ≠ chunk'.offset) :
    w.keep (w.keep store chunk) chunk' = w.keep (w.keep store chunk') chunk := by
  unfold keep
  cases w.filtered chunk with
  | error fault => rfl
  | ok x =>
    cases w.filtered chunk' with
    | error fault => rfl
    | ok y => exact store.write_comm h _ _ _ _

/-- Chunks with different offsets leave the same store in whatever order they come. -/
theorem foldl_keep_of_perm (w : ChunkWriter) {chunks chunks' : List Chunk}
    (hp : chunks.Perm chunks') (hd : (chunks.map Chunk.offset).Nodup) (store : MemoryStore) :
    chunks.foldl w.keep store = chunks'.foldl w.keep store := by
  refine hp.foldl_eq' (fun chunk hc chunk' hc' store => ?_) store
  by_cases heq : chunk = chunk'
  · rw [heq]
  · refine w.keep_comm store fun hoffset => heq ?_
    exact List.inj_on_of_nodup_map hd hc hc' hoffset

theorem result_outcome_eq_ok {w : ChunkWriter} {chunk : Chunk} {write : ChunkWrite}
    (h : (w.outcome chunk).result = .ok write) :
    ∃ mask bytes, w.filtered chunk = .ok (mask, bytes) ∧ write = writeOf chunk mask bytes := by
  unfold outcome at h
  rcases hf : w.filtered chunk with fault | ⟨mask, bytes⟩
  · rw [hf] at h
    cases fault <;> cases h
  · rw [hf] at h
    cases h
    exact ⟨mask, bytes, rfl, rfl⟩

variable {w : ChunkWriter} {chunks : List Chunk}

theorem writes_inj (hd : (chunks.map Chunk.index).Nodup) :
    ∀ a ∈ Pool.writes (chunks.map w.outcome), ∀ b ∈ Pool.writes (chunks.map w.outcome),
      a.index = b.index → a = b := by
  have source (a : ChunkWrite) (ha : a ∈ Pool.writes (chunks.map w.outcome)) :
      ∃ chunk ∈ chunks, (w.outcome chunk).result = .ok a ∧ a.index = chunk.index := by
    obtain ⟨o, ho, hwrite⟩ := List.mem_filterMap.1 ha
    obtain ⟨chunk, hc, rfl⟩ := List.mem_map.1 ho
    have hresult : (w.outcome chunk).result = .ok a := by
      cases hr : (w.outcome chunk).result with
      | ok write => simpa [hr] using hwrite
      | error error => simp [hr] at hwrite
    obtain ⟨mask, bytes, -, rfl⟩ := result_outcome_eq_ok hresult
    exact ⟨chunk, hc, hresult, rfl⟩
  intro a ha b hb hab
  obtain ⟨chunk, hc, hresult, hindex⟩ := source a ha
  obtain ⟨chunk', hc', hresult', hindex'⟩ := source b hb
  obtain rfl := List.inj_on_of_nodup_map hd hc hc' (by rw [← hindex, hab, hindex'])
  exact Except.ok.inj (hresult.symm.trans hresult')

theorem failures_inj (hd : (chunks.map Chunk.index).Nodup) :
    ∀ a ∈ Pool.failures (chunks.map w.outcome), ∀ b ∈ Pool.failures (chunks.map w.outcome),
      a.index = b.index → a = b := by
  have source (a : ChunkFailure) (ha : a ∈ Pool.failures (chunks.map w.outcome)) :
      ∃ chunk ∈ chunks, (w.outcome chunk).result = .error a.error ∧ a.index = chunk.index ∧
        a.offset = chunk.offset := by
    obtain ⟨o, ho, hfail⟩ := List.mem_filterMap.1 ha
    obtain ⟨chunk, hc, rfl⟩ := List.mem_map.1 ho
    refine ⟨chunk, hc, ?_⟩
    cases hr : (w.outcome chunk).result with
    | ok write => simp [hr] at hfail
    | error error =>
      simp only [hr, Option.some.injEq] at hfail
      subst hfail
      exact ⟨rfl, rfl, rfl⟩
  intro a ha b hb hab
  obtain ⟨chunk, hc, hresult, hindex, hoffset⟩ := source a ha
  obtain ⟨chunk', hc', hresult', hindex', hoffset'⟩ := source b hb
  obtain rfl := List.inj_on_of_nodup_map hd hc hc' (by rw [← hindex, hab, hindex'])
  have herror := Except.error.inj (hresult.symm.trans hresult')
  cases a
  cases b
  simp_all

end ChunkWriter

end FilteredChunks
