import FilteredChunks.Proofs.Engine.Bounds
import FilteredChunks.Proofs.Engine.RoundTrip
import FilteredChunks.Proofs.Writer.Sequential

/-!
# A writer stores what encoding gives

Encoding a chunk and writing it run the same pipeline, and finish the run in two ways: encoding cuts the
buffer down to its count, writing takes as many bytes as count, which must be there.  So they agree
unless a run that succeeds counts more bytes than its buffer has (`storesEncoded_apply_iff`); then
encoding gives the whole buffer and writing crashes.  No run does that whose codecs are bounded
(`not_overcounts_of_isBounded`).
-/

namespace FilteredChunks

namespace Engine

/-- A run that succeeds and counts bytes that are not in the buffer it leaves. -/
def Run.Overcounts {σ : Type} (r : Run σ) : Prop :=
  (∃ outcome, r.result = .ok outcome) ∧ ¬ r.buffer.IsValid

theorem not_overcounts_of_isBounded {σ : Type} [CodecSource σ] {pipeline : FilterPipeline} {source : σ}
    (hcodecs : ∀ c, CodecSource.Provides source c → c.codec.IsBounded)
    (hflags : ∀ step ∈ pipeline.steps, step.flags.isDefinition = true) (data : Bytes) :
    ¬ (encode pipeline source data).Overcounts := by
  rintro ⟨⟨outcome, hresult⟩, hvalid⟩
  have hrange : Run.InRange pipeline .write (encode pipeline source data) :=
    inRange_of_isBounded hcodecs hflags (ChunkBuffer.isValid_ofBytes data)
  have hbytes := hrange.stored rfl outcome hresult
  exact hvalid (ChunkBuffer.valid?_eq_some_iff.1 hbytes).1

end Engine

namespace ChunkWriter

variable {σ : Type} [ChunkStore σ] {w : ChunkWriter} {chunk : Chunk} {store : σ}

/-- A writer does with a chunk what encoding it tells: both fail, with the same fault, and nothing is
stored, or the bytes and the mask that encoding gives are stored and reported. -/
inductive StoresEncoded (encoded : Except Fault (Bytes × FilterMask)) (chunk : Chunk) (store : σ)
    (writing : Writing σ) : Prop
  | failed (fault : Fault) (hencoded : encoded = .error fault)
      (hresult : writing.result = .error (fault.within (.filteringChunk chunk.index)))
      (hstore : writing.store = store)
  | stored (bytes : Bytes) (mask : FilterMask) (hencoded : encoded = .ok (bytes, mask))
      (hresult : writing.result =
        .ok ⟨chunk.index, chunk.offset, chunk.data.length, bytes.length, mask⟩)
      (hstore : writing.store = ChunkStore.put store chunk.offset mask bytes)

theorem run_eq_encode (hexclude : w.exclude = .empty) (hcallback : w.onFailure = none)
    (data : Bytes) :
    Engine.run w.pipeline w.options w.codecs (.ofBytes data) =
      Engine.encode w.pipeline w.codecs data := by
  rw [options, hexclude, hcallback]
  rfl

theorem storesEncoded_of_not_overcounts (hexclude : w.exclude = .empty) (hcallback : w.onFailure = none)
    (htaken : ∀ mask bytes, ChunkStore.refusal? store chunk.offset mask bytes = none)
    (h : ¬ (Engine.encode w.pipeline w.codecs chunk.data).Overcounts) :
    StoresEncoded (Engine.encode w.pipeline w.codecs chunk.data).stored chunk store
      (w.apply chunk store) := by
  obtain ⟨hresult, hstore⟩ := w.apply_eq chunk htaken
  unfold filtered at hresult hstore
  rw [run_eq_encode hexclude hcallback] at hresult hstore
  dsimp only at hresult hstore
  generalize hencode : Engine.encode w.pipeline w.codecs chunk.data = run at h hresult hstore
  rcases hrun : run.result with fault | outcome
  · rw [hrun] at hresult hstore
    have hencoded : run.stored = .error fault := by rw [Engine.Run.stored, hrun]; rfl
    exact .failed fault hencoded hresult hstore
  · have hvalid : run.buffer.IsValid := by
      by_contra hnot
      exact h ⟨⟨outcome, hrun⟩, hnot⟩
    rw [hrun] at hresult hstore
    dsimp only at hresult hstore
    rw [hvalid.valid?_eq] at hresult hstore
    have hencoded : run.stored = .ok (run.buffer.toBytes, outcome.mask) := by
      rw [Engine.Run.stored, hrun]
      rfl
    exact .stored run.buffer.toBytes outcome.mask hencoded hresult hstore

/-- If the run counts more than there is, encoding gives the whole buffer, while writing crashes before
anything is stored. -/
theorem apply_of_overcounts (hexclude : w.exclude = .empty) (hcallback : w.onFailure = none)
    (store : σ) (h : (Engine.encode w.pipeline w.codecs chunk.data).Overcounts) :
    (∃ mask, (Engine.encode w.pipeline w.codecs chunk.data).stored =
      .ok ((Engine.encode w.pipeline w.codecs chunk.data).buffer.data, mask)) ∧
    (w.apply chunk store).result = .error .crash ∧ (w.apply chunk store).store = store := by
  obtain ⟨⟨outcome, hrun⟩, hvalid⟩ := h
  have hwhole : (Engine.encode w.pipeline w.codecs chunk.data).buffer.toBytes =
      (Engine.encode w.pipeline w.codecs chunk.data).buffer.data :=
    List.take_of_length_le (Nat.le_of_lt (Nat.not_le.1 hvalid))
  have hnone : (Engine.encode w.pipeline w.codecs chunk.data).buffer.valid? = none := if_neg hvalid
  have happly : w.apply chunk store =
      ⟨.error .crash, store, (Engine.encode w.pipeline w.codecs chunk.data).events,
        (Engine.encode w.pipeline w.codecs chunk.data).metrics⟩ := by
    unfold apply
    rw [run_eq_encode hexclude hcallback]
    dsimp only
    rw [hrun]
    dsimp only
    rw [hnone]
  refine ⟨⟨outcome.mask, ?_⟩, by rw [happly], by rw [happly]⟩
  rw [Engine.Run.stored, hrun, hwhole]
  rfl

/-- **Writing a chunk stores what encoding it gives, unless the run counts bytes that are not there.**
Of a table for writing that is as long as its pipeline, with any codecs whatsoever, a writer is made.
With a store that takes the chunk, the writer does what encoding tells if and only if the run does not
succeed with a count beyond its buffer; if it does, encoding gives the whole buffer and the writer
crashes, and the store is left alone. -/
theorem storesEncoded_apply_iff {pipeline : FilterPipeline} {codecs : CodecTable}
    (hmode : codecs.mode = .write) (hlength : codecs.classes.length = pipeline.length) :
    ∃ w, ofTable pipeline codecs = .ok w ∧ ∀ (chunk : Chunk) (store : σ),
      (∀ mask bytes, ChunkStore.refusal? store chunk.offset mask bytes = none) →
      (StoresEncoded (Engine.encode pipeline codecs chunk.data).stored chunk store
          (w.apply chunk store) ↔ ¬ (Engine.encode pipeline codecs chunk.data).Overcounts) ∧
      ((Engine.encode pipeline codecs chunk.data).Overcounts →
        (∃ mask, (Engine.encode pipeline codecs chunk.data).stored =
          .ok ((Engine.encode pipeline codecs chunk.data).buffer.data, mask)) ∧
        (w.apply chunk store).result = .error .crash ∧ (w.apply chunk store).store = store) := by
  let w : ChunkWriter := ⟨pipeline, codecs, .empty, none⟩
  have hwriter : ofTable pipeline codecs = .ok w := by
    rw [ofTable, if_neg (not_not.2 hmode), if_neg (not_not.2 hlength)]
  have hexclude : w.exclude = .empty := rfl
  have hcallback : w.onFailure = none := rfl
  refine ⟨w, hwriter, fun chunk store htaken => ⟨⟨fun hstores hover => ?_, fun hfits => ?_⟩, ?_⟩⟩
  · -- one of them succeeds, the other does not
    obtain ⟨⟨mask, hencoded⟩, hcrash, -⟩ := apply_of_overcounts hexclude hcallback store hover
    cases hstores with
    | failed fault hfailed => cases hencoded.symm.trans hfailed
    | stored bytes mask _ hstored => cases hcrash.symm.trans hstored
  · exact storesEncoded_of_not_overcounts hexclude hcallback htaken hfits
  · exact apply_of_overcounts hexclude hcallback store

theorem storesEncoded_apply_iff_mixed :
    (Engine.mixedTable .write).mode = .write ∧
    (Engine.mixedTable .write).classes.length = (⟨Engine.mixedSteps, 32⟩ : FilterPipeline).length ∧
    (∀ mask bytes, ChunkStore.refusal? MemoryStore.empty [4, 0] mask bytes = none) ∧
    ¬ (Engine.encode ⟨Engine.mixedSteps, 32⟩ (Engine.mixedTable .write) [1, 2, 3]).Overcounts ∧
    ∃ w, ofTable ⟨Engine.mixedSteps, 32⟩ (Engine.mixedTable .write) = .ok w ∧
      StoresEncoded (.ok ([1, 2, 3, 7], ⟨6⟩)) ⟨0, [4, 0], [1, 2, 3]⟩ MemoryStore.empty
        (w.apply ⟨0, [4, 0], [1, 2, 3]⟩ MemoryStore.empty) := by
  have hvalid : (Engine.encode ⟨Engine.mixedSteps, 32⟩ (Engine.mixedTable .write)
      [1, 2, 3]).buffer.IsValid := by decide
  have hencoded : (Engine.encode ⟨Engine.mixedSteps, 32⟩ (Engine.mixedTable .write)
      [1, 2, 3]).stored = .ok ([1, 2, 3, 7], ⟨6⟩) := by rfl
  have hmode : (Engine.mixedTable .write).mode = .write := rfl
  have hlength : (Engine.mixedTable .write).classes.length =
      (⟨Engine.mixedSteps, 32⟩ : FilterPipeline).length := rfl
  obtain ⟨w, hw, happly⟩ := storesEncoded_apply_iff (σ := MemoryStore) hmode hlength
  have hstores := (happly ⟨0, [4, 0], [1, 2, 3]⟩ .empty fun _ _ => rfl).1.2 fun h => h.2 hvalid
  rw [hencoded] at hstores
  exact ⟨rfl, rfl, fun _ _ => rfl, fun h => h.2 hvalid, w, hw, hstores⟩

/-- A class whose codec tells of five bytes, whatever it is given. -/
def claimingTable : CodecTable where
  mode := .write
  classes := [.ofCodec 300 "claim" (.ofSample (.claiming 5) .always .keep) (.application 0)]

/-- Of three bytes, encoding gives those that are there, and the writer crashes. -/
theorem not_storesEncoded_overclaiming :
    claimingTable.mode = .write ∧
    claimingTable.classes.length =
      (⟨[.ofWords 300 .mandatory []], 32⟩ : FilterPipeline).length ∧
    (∀ mask bytes, ChunkStore.refusal? MemoryStore.empty [0] mask bytes = none) ∧
    (Engine.encode ⟨[.ofWords 300 .mandatory []], 32⟩ claimingTable [1, 2, 3]).stored =
      .ok ([1, 2, 3], .empty) ∧
    ∃ w, ofTable ⟨[.ofWords 300 .mandatory []], 32⟩ claimingTable = .ok w ∧
      (w.apply ⟨0, [0], [1, 2, 3]⟩ MemoryStore.empty).result = .error .crash ∧
      ¬ StoresEncoded
        (Engine.encode ⟨[.ofWords 300 .mandatory []], 32⟩ claimingTable [1, 2, 3]).stored
        ⟨0, [0], [1, 2, 3]⟩ MemoryStore.empty
        (w.apply ⟨0, [0], [1, 2, 3]⟩ MemoryStore.empty) := by
  have hencoded : (Engine.encode ⟨[.ofWords 300 .mandatory []], 32⟩ claimingTable
      [1, 2, 3]).stored = .ok ([1, 2, 3], .empty) := by rfl
  have hcrash : ((⟨⟨[.ofWords 300 .mandatory []], 32⟩, claimingTable, .empty, none⟩ :
      ChunkWriter).apply ⟨0, [0], [1, 2, 3]⟩ MemoryStore.empty).result = .error .crash := by rfl
  refine ⟨rfl, rfl, fun _ _ => rfl, hencoded, _, rfl, hcrash, fun hstores => ?_⟩
  cases hstores with
  | failed fault hfailed => cases hencoded.symm.trans hfailed
  | stored bytes mask _ hstored => cases hcrash.symm.trans hstored

end ChunkWriter

end FilteredChunks
