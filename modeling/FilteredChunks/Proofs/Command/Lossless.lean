import FilteredChunks.Proofs.Command.Preparing
import FilteredChunks.Proofs.Dataset
import FilteredChunks.Proofs.Deflate.RoundTrip
import FilteredChunks.Proofs.FileTree
import FilteredChunks.Proofs.Writer.ToFile

/-!
# A write loses nothing

A command that writes a dataset with built-in filters succeeds, and what it leaves is the dataset: the
chunk file opens, has one record for each chunk and no other, and every record is decoded to its chunk
(`Kept`).  The main statement, `losesNothing`, says so for every schedule of every pool.

Buffers have at most `Bytes.maxLength` bytes and grow by doubling, which no filter here keeps account of.
So it is a condition that there is room for all that a write keeps (`HasRoom`); without room for a chunk
as it is, or for the workers, the command crashes.
-/

namespace FilteredChunks

/-! ### What is stored of a chunk -/

/-- The bytes that are stored of a chunk are restored by any table that accepts the steps. -/
theorem ChunkWriter.exists_stored {w : ChunkWriter} {codecs : CodecTable} (hexclude : w.exclude = .empty)
    (hno : w.onFailure = none)
    (hsteps : ∀ x ∈ w.pipeline.steps.zipIdx, Engine.Accepting w.codecs codecs x) {chunk : Chunk}
    (hne : chunk.data ≠ []) (hoffset : chunk.offset.length ≤ ChunkFile.maxDimensions) :
    ∃ write, w.Stores chunk write ∧
      write.data.length ≤ Engine.growthIn w.pipeline.length chunk.data.length ∧
      ∀ codecs' : CodecTable, (∀ x ∈ w.pipeline.steps.zipIdx, Engine.Accepting w.codecs codecs' x) →
        (Engine.decode w.pipeline codecs' write.data write.mask).restored = .ok chunk.data := by
  obtain ⟨bytes, hfiltered, hlength, -⟩ := filtered_of_accepting hexclude hno hsteps hne
  refine ⟨⟨chunk.offset, .empty, bytes⟩, ⟨hfiltered, rfl, hoffset⟩, hlength, ?_⟩
  intro codecs' hsteps'
  obtain ⟨bytes', hfiltered', -, hrestored⟩ := filtered_of_accepting hexclude hno hsteps' hne
  rw [hfiltered] at hfiltered'
  cases hfiltered'
  exact hrestored

theorem growthIn_lt {steps n : Nat} (hsteps : steps ≤ FilterPipeline.maxSteps)
    (hn : n ≤ Bytes.maxLength) : Engine.growthIn steps n < UInt64.size :=
  calc Engine.growthIn steps n ≤ Engine.growthIn FilterPipeline.maxSteps n :=
        Engine.growthIn_le_of_le hsteps n
    _ ≤ Engine.growthIn FilterPipeline.maxSteps Bytes.maxLength := Engine.growthIn_mono _ hn
    _ < UInt64.size := by decide

namespace Command

/-- There is room for what a write keeps, on its way through some filters, with some workers. -/
structure HasRoom (d : SyntheticDataset) (filters workers : Nat) : Prop where
  /-- A buffer that is full is moved to one twice as long, and what expands a chunk starts with twice its
  length; a record has 32 bytes before its data, and the end of a stream is looked for with 32. -/
  buffers : 2 * Engine.growthIn filters d.chunkBytes + 32 ≤ Bytes.maxLength
  pool : Pool.HasRoom workers d.chunkCount
  /-- Positions in a file have 63 bits. -/
  file : ChunkFile.headerSize + d.chunkCount * (ChunkFile.recordHeaderSize + 16 +
    Engine.growthIn filters d.chunkBytes) ≤ Bytes.maxLength

theorem HasRoom.chunksFit {d : SyntheticDataset} {filters workers : Nat} (h : HasRoom d filters workers) :
    d.chunksFit = true := by
  have hgrowth : d.chunkBytes ≤ Engine.growthIn filters d.chunkBytes :=
    Engine.growthIn_le_of_le (Nat.zero_le filters) d.chunkBytes
  have hbuffers := h.buffers
  refine decide_eq_true ?_
  omega

/-- A chunk file holds a dataset: one record for each chunk, which is decoded to it, and no other
record. -/
structure HoldsDataset (d : SyntheticDataset) (pipeline : FilterPipeline) (codecs : CodecTable)
    (f : ChunkFile) : Prop where
  size : f.size = d.chunkCount
  restored : ∀ chunk ∈ d.chunks, ∃ stored, f.read chunk.offset = .ok (some stored) ∧
    (Engine.decode pipeline codecs stored.data stored.mask).restored = .ok chunk.data
  others : ∀ offset, offset ∉ d.chunks.map Chunk.offset → f.read offset = .ok none

theorem holdsDataset_of_holdsChunks {d : SyntheticDataset} {pipeline : FilterPipeline}
    {codecs : CodecTable} {f : ChunkFile} {stored : Chunk → StoreWrite} {summary : WriteSummary}
    (hd : (d.chunks.map Chunk.offset).Nodup)
    (hoffset : ∀ chunk ∈ d.chunks, (stored chunk).offset = chunk.offset)
    (hrestored : ∀ chunk ∈ d.chunks, (Engine.decode pipeline codecs (stored chunk).data
      (stored chunk).mask).restored = .ok chunk.data)
    (h : ChunkWriter.HoldsChunks stored d.chunks summary f) : HoldsDataset d pipeline codecs f := by
  obtain ⟨-, done, hperm, rfl⟩ := h
  have hoffsets : ((done.map stored).map StoreWrite.offset).Perm (d.chunks.map Chunk.offset) := by
    rw [List.map_map]
    refine (List.Perm.of_eq (List.map_congr_left fun chunk hmem => ?_)).trans (hperm.map _)
    exact hoffset chunk (hperm.mem_iff.1 hmem)
  have hd' := hoffsets.nodup_iff.2 hd
  refine ⟨?_, fun chunk hmem => ⟨⟨_, _⟩, ?_, hrestored chunk hmem⟩, fun offset hnot => ?_⟩
  · rw [ChunkFile.size_fileOf hd', List.length_map, hperm.length_eq, SyntheticDataset.chunks,
      List.length_map, List.length_range]
  · rw [← hoffset chunk hmem]
    exact ChunkFile.read_fileOf hd' (List.mem_map_of_mem (hperm.mem_iff.2 hmem))
  · rw [(ChunkFile.mirrors_fileOf _).read, MemoryStore.get?_after_of_notMem]
    exact fun hmem => hnot (hoffsets.mem_iff.1 hmem)

theorem compareChunks_of_restored {output : String} {pipeline : FilterPipeline} {codecs : CodecTable}
    {f : ChunkFile} {chunks : List Chunk}
    (h : ∀ chunk ∈ chunks, ∃ stored, f.read chunk.offset = .ok (some stored) ∧
      (Engine.decode pipeline codecs stored.data stored.mask).restored = .ok chunk.data) :
    compareChunks output pipeline codecs f chunks = .ok () := by
  induction chunks with
  | nil => rfl
  | cons chunk chunks ih =>
    obtain ⟨stored, hread, hrestored⟩ := h chunk List.mem_cons_self
    rw [compareChunks, hread]
    dsimp only
    rw [hrestored]
    dsimp only
    rw [if_pos rfl]
    exact ih fun c hc => h c (List.mem_cons_of_mem _ hc)

theorem holdsFile_of_isWritable {tree made : FileTree} {output : String}
    (h : IsWritable tree output made) : made.HoldsFile output ChunkFile.create.image := by
  obtain ⟨hcreated, hsynced⟩ := h
  unfold createFile at hcreated
  dsimp only at hcreated
  split at hcreated
  · cases hcreated
  split at hcreated
  · cases hcreated
  next tree' hwrite =>
  cases hcreated
  exact FileTree.holdsFile_of_write hwrite hsynced

section

variable [Compression]

/-- What a write that lost nothing leaves: it succeeded, the chunk file opens and holds the dataset,
and verifying it finds no difference. -/
structure Kept (request : WriteRequest) (ready : ReadyWrite) (progress : Progress Unit) : Prop where
  succeeded : progress.result = .ok ()
  holds : ∃ image f codecs, progress.tree.read request.output = .ok image ∧
    ChunkFile.ofImage image = .ok f ∧
    CodecTable.resolve ready.pipeline .read ready.config.pluginDir progress.tree.libraries
      ready.registry = .ok codecs ∧
    HoldsDataset ready.dataset ready.pipeline codecs f
  verified : verifyFile request.output ready.dataset ready.pipeline ready.config ready.registry
    progress.tree = .ok ()

variable {request : WriteRequest} {ready : ReadyWrite}

theorem kept_concludeWrite {before : Bytes} (hfile : ready.tree.HoldsFile request.output before)
    {stored : Chunk → StoreWrite} {summary : WriteSummary} {f : ChunkFile}
    (hholds : ChunkWriter.HoldsChunks stored ready.dataset.chunks summary f)
    (hfits : ∀ chunk ∈ ready.dataset.chunks, ChunkFile.Fits (stored chunk))
    (hdataset : ∀ tree, ∃ codecs,
      CodecTable.resolve ready.pipeline .read ready.config.pluginDir tree ready.registry =
        .ok codecs ∧ HoldsDataset ready.dataset ready.pipeline codecs f) :
    Kept request ready (concludeWrite request ready (.ok summary) f) := by
  obtain ⟨tree, hwrite, hfile'⟩ := hfile.write f.image
  obtain ⟨codecs, hresolve, hdata⟩ := hdataset tree.libraries
  have hopen : ChunkFile.ofImage f.image = .ok f := by
    obtain ⟨-, done, hperm, rfl⟩ := hholds
    refine ChunkFile.ofImage_fileOf fun write hmem => ?_
    obtain ⟨chunk, hchunk, rfl⟩ := List.mem_map.1 hmem
    exact hfits chunk (hperm.mem_iff.1 hchunk)
  have hverify : verifyFile request.output ready.dataset ready.pipeline ready.config ready.registry
      tree = .ok () := by
    rw [verifyFile, hresolve]
    dsimp only
    rw [hfile'.read]
    dsimp only
    rw [hopen]
    exact compareChunks_of_restored hdata.restored
  have hend : (concludeWrite request ready (.ok summary) f).result = .ok () ∧
      (concludeWrite request ready (.ok summary) f).tree = tree := by
    rw [concludeWrite, hwrite]
    dsimp only
    rw [hfile'.sync]
    dsimp only
    rw [hholds.succeeded]
    dsimp only
    rw [hverify]
    cases request.verify
    · exact ⟨rfl, rfl⟩
    · exact ⟨rfl, rfl⟩
  obtain ⟨hresult, htree⟩ := hend
  refine ⟨hresult, ⟨f.image, f, codecs, ?_, hopen, ?_, hdata⟩, ?_⟩
  · rw [htree, hfile'.read]
  · rw [htree, hresolve]
  · rw [htree, hverify]

/-- **Whatever is stored of the chunks, it can be read back**: for a writer that accepts every chunk there
are writes, one for each chunk, such that a file that holds them is as it should be. -/
theorem exists_stored (haccepting : ready.Accepting) (hshaped : ready.dataset.IsShaped)
    (hsize : ready.dataset.paddedBytes < UInt64.size) {before : Bytes}
    (hfile : ready.tree.HoldsFile request.output before) :
    ∃ stored : Chunk → StoreWrite,
      (∀ chunk ∈ ready.dataset.chunks, ready.writer.Stores chunk (stored chunk)) ∧
      (ready.dataset.chunksFit = true → ∀ (summary : WriteSummary) (f : ChunkFile),
        ChunkWriter.HoldsChunks stored ready.dataset.chunks summary f →
        Kept request ready (concludeWrite request ready (.ok summary) f)) := by
  obtain ⟨codecs₀, -, hsteps₀⟩ := haccepting.reading ready.tree.libraries
  rw [← haccepting.pipeline] at hsteps₀
  have : Nonempty StoreWrite := ⟨⟨[], .empty, []⟩⟩
  have hstored : ∀ chunk ∈ ready.dataset.chunks, ∃ write, ready.writer.Stores chunk write ∧
      write.data.length ≤ Engine.growthIn ready.writer.pipeline.length ready.dataset.chunkBytes ∧
      ∀ codecs' : CodecTable,
        (∀ x ∈ ready.writer.pipeline.steps.zipIdx,
          Engine.Accepting ready.writer.codecs codecs' x) →
        (Engine.decode ready.writer.pipeline codecs' write.data write.mask).restored =
          .ok chunk.data := by
    intro chunk hchunk
    obtain ⟨index, -, rfl⟩ := List.mem_map.1 hchunk
    rw [← SyntheticDataset.length_chunk ready.dataset index]
    exact ChunkWriter.exists_stored haccepting.exclude haccepting.onFailure hsteps₀
      (SyntheticDataset.chunk_data_ne_nil hshaped index) (by decide : 2 ≤ ChunkFile.maxDimensions)
  choose! stored hstores hbound hrestored using hstored
  rw [haccepting.pipeline] at hbound hrestored
  refine ⟨stored, hstores, fun hfit summary f hholds => ?_⟩
  refine kept_concludeWrite hfile hholds (fun chunk hchunk => ?_) fun tree => ?_
  · refine ⟨(hstores chunk hchunk).offset_le, Nat.lt_of_le_of_lt (hbound chunk hchunk) ?_⟩
    exact growthIn_lt haccepting.length_le (of_decide_eq_true hfit)
  · obtain ⟨codecs, hcodecs, hsteps⟩ := haccepting.reading tree
    exact ⟨codecs, hcodecs, holdsDataset_of_holdsChunks
      (SyntheticDataset.nodup_offsets hshaped hsize) (fun chunk hc => (hstores chunk hc).offset)
      (fun chunk hc => hrestored chunk hc codecs hsteps) hholds⟩

/-- **Without room for a chunk or for the workers a command with built-in filters crashes.** -/
theorem result_write_crash (hlossless : Compression.IsLossless) {env : Environment}
    {d : SyntheticDataset}
    (hshape : SyntheticDataset.make request.rows request.cols request.chunkRows request.chunkCols =
      .ok d) (hfilters : ∀ choice ∈ request.filters, choice.isPlugin = false)
    (hlength : request.filters.length ≤ 32) (hlevel : request.deflateLevel.toNat ≤ 9)
    {made : FileTree} (hwritable : IsWritable env.tree request.output made)
    (hroom : d.chunksFit = false ∨ Pool.maxWorkers < (configOf env request.threads).threads) :
    (write env request).result = .error .crash := by
  obtain ⟨ready, hprepared, rfl, hconfig, rfl, -⟩ :=
    prepareWrite_of_builtin hlossless hlevel hfilters hlength hshape hwritable
  have hcrash : (writeDataset ready.writer ready.config.threads ready.dataset).result =
      .error .crash := by
    rw [writeDataset]
    split
    · next hfit =>
      rw [hfit, ← hconfig] at hroom
      rw [ChunkWriter.writeChunks, if_pos (hroom.resolve_left (by simp))]
    · rfl
  obtain ⟨tree, hwrite, -⟩ := (holdsFile_of_isWritable hwritable).write
    (writeDataset ready.writer ready.config.threads ready.dataset).store.image
  rw [write, hprepared]
  dsimp only
  rw [hcrash, concludeWrite, hwrite]
  rfl

/-! ### Main statement -/

/-- What becomes of a write that is ready for its chunks. -/
structure LosesNothing (env : Environment) (request : WriteRequest) (ready : ReadyWrite) : Prop where
  prepared : prepareWrite env request = .ok ready
  /-- Whatever threads were started, and in whichever order they work, nothing is lost. -/
  kept : ∀ spawned, true ∈ spawned →
    HasRoom ready.dataset request.filters.length spawned.length → ∀ schedule s,
    (ChunkWriter.fileSystem spawned ready.dataset.chunks).run ready.writer.job schedule = s →
    s.IsClosed →
    Kept request ready (concludeWrite request ready
      ((Pool.summarise s.core s.workers).mapError .failure) s.core.shared.store)
  /-- Every fair schedule ends. -/
  ends : ∀ spawned, true ∈ spawned → ∀ turns, Pool.Fair 1 spawned.length turns →
    ∃ n, ((ChunkWriter.fileSystem spawned ready.dataset.chunks).after ready.writer.job turns n).IsClosed
  /-- Nothing is lost by the command itself. -/
  written : HasRoom ready.dataset request.filters.length (configOf env request.threads).threads →
    Kept request ready (write env request)
  /-- Without room for a chunk as it is, or for the workers, the command crashes. -/
  crashed : ready.dataset.chunksFit = false ∨ Pool.maxWorkers < (configOf env request.threads).threads →
    (write env request).result = .error .crash

/-- **Writing a dataset with built-in filters loses nothing**, with up to 32 filters in any order, at
any level, by any number of workers in any order that there is room for.  It is assumed that expanding
undoes compressing, and that the chunk file can be made and is kept. -/
theorem losesNothing (hlossless : Compression.IsLossless) {env : Environment} {d : SyntheticDataset}
    (hshape : SyntheticDataset.make request.rows request.cols request.chunkRows request.chunkCols =
      .ok d) (hsize : d.paddedBytes < UInt64.size)
    (hfilters : ∀ choice ∈ request.filters, choice.isPlugin = false)
    (hlength : request.filters.length ≤ 32) (hlevel : request.deflateLevel.toNat ≤ 9)
    {made : FileTree} (hwritable : IsWritable env.tree request.output made) :
    ∃ ready, ready.dataset = d ∧ LosesNothing env request ready := by
  have hcrash := result_write_crash hlossless hshape hfilters hlength hlevel hwritable
  obtain ⟨ready, hprepared, rfl, hconfig, rfl, haccepting⟩ :=
    prepareWrite_of_builtin hlossless hlevel hfilters hlength hshape hwritable
  have hfile := holdsFile_of_isWritable hwritable
  obtain ⟨stored, hstores, hkept⟩ :=
    exists_stored haccepting (SyntheticDataset.isShaped_of_make hshape) hsize hfile
  refine ⟨ready, rfl, hprepared, ?_, ?_, ?_, hcrash⟩
  · intro spawned hs hroom schedule s hrun hclosed
    obtain ⟨summary, hsummary, hholds⟩ :=
      ChunkWriter.holdsChunks_of_closed hstores hs hrun hclosed
    rw [hsummary]
    exact hkept hroom.chunksFit summary _ hholds
  · exact fun spawned hs turns hfair => ready.writer.closes_fileSystem hs _ hfair
  · intro hroom
    obtain ⟨summary, hsummary, hholds⟩ :=
      ChunkWriter.holdsChunks_writeChunks hstores (hconfig ▸ hroom.pool.le_maxWorkers)
    rw [write, hprepared]
    dsimp only
    rw [writeDataset, if_pos hroom.chunksFit, hsummary]
    exact hkept hroom.chunksFit summary _ hholds

end

/-! ### Small directories -/

/-- A directory without files, and no variables. -/
def emptyPlace : Environment := ⟨fun _ => none, .ofDirectory "data"⟩

theorem isWritable_emptyPlace :
    IsWritable emptyPlace.tree "o" (createFile emptyPlace.tree "o").2 :=
  ⟨Prod.ext (by decide +kernel) rfl, by decide +kernel⟩

/-- Filters in no sensible order, on chunks of which some hang over the edge. -/
def mixedRequest : WriteRequest where
  output := "o"
  rows := 5
  cols := 7
  chunkRows := 2
  chunkCols := 3
  filters := [.shuffle, .deflate, .fletcher32, .deflate, .shuffle]
  threads := some 3
  deflateLevel := 0
  lz4Block := 8192
  zstdLevel := 3
  verify := true

theorem hasRoom_mixedRequest : HasRoom ⟨5, 7, 2, 3⟩ 5 3 := by
  constructor
  · decide
  · constructor
    · decide
    · decide
  · decide

theorem losesNothing_mixedRequest :
    Compression.zlib.IsLossless ∧ SyntheticDataset.make 5 7 2 3 = .ok ⟨5, 7, 2, 3⟩ ∧
    SyntheticDataset.paddedBytes ⟨5, 7, 2, 3⟩ < UInt64.size ∧
    (∀ choice ∈ mixedRequest.filters, choice.isPlugin = false) ∧ mixedRequest.filters.length ≤ 32 ∧
    mixedRequest.deflateLevel.toNat ≤ 9 ∧
    IsWritable emptyPlace.tree "o" (createFile emptyPlace.tree "o").2 ∧ HasRoom ⟨5, 7, 2, 3⟩ 5 3 ∧
    ∃ ready, ready.dataset = ⟨5, 7, 2, 3⟩ ∧ LosesNothing emptyPlace mixedRequest ready ∧
      Kept mixedRequest ready (write emptyPlace mixedRequest) := by
  have hshape : SyntheticDataset.make 5 7 2 3 = .ok ⟨5, 7, 2, 3⟩ := rfl
  have hsize : SyntheticDataset.paddedBytes ⟨5, 7, 2, 3⟩ < UInt64.size := by decide
  have hfilters : ∀ choice ∈ mixedRequest.filters, choice.isPlugin = false := by decide
  have hlength : mixedRequest.filters.length ≤ 32 := by decide
  have hlevel : mixedRequest.deflateLevel.toNat ≤ 9 := by decide
  obtain ⟨ready, hdataset, hloses⟩ : ∃ ready, ready.dataset = ⟨5, 7, 2, 3⟩ ∧
      LosesNothing emptyPlace mixedRequest ready :=
    losesNothing Compression.isLossless_zlib hshape hsize hfilters hlength hlevel
      isWritable_emptyPlace
  exact ⟨Compression.isLossless_zlib, hshape, hsize, hfilters, hlength, hlevel, isWritable_emptyPlace,
    hasRoom_mixedRequest, ready, hdataset, hloses, hloses.written (hdataset ▸ hasRoom_mixedRequest)⟩

/-- More threads than there is room for. -/
def crowdedRequest : WriteRequest :=
  { mixedRequest with
    rows := 2, cols := 2, chunkRows := 2, chunkCols := 2, filters := [.fletcher32]
    threads := some (UInt64.size - 1) }

/-- A chunk of 2^63 bytes. -/
def oversizedRequest : WriteRequest :=
  { mixedRequest with
    rows := 2 ^ 30, cols := 2 ^ 31, chunkRows := 2 ^ 30, chunkCols := 2 ^ 31, filters := [.shuffle]
    threads := none }

/-- Both writes are of datasets that no size is too large for, and both crash. -/
theorem result_write_crowded_oversized :
    Compression.zlib.IsLossless ∧
    IsWritable emptyPlace.tree "o" (createFile emptyPlace.tree "o").2 ∧
    (SyntheticDataset.make 2 2 2 2 = .ok ⟨2, 2, 2, 2⟩ ∧
      SyntheticDataset.paddedBytes ⟨2, 2, 2, 2⟩ = 16 ∧
      (write emptyPlace crowdedRequest).result = .error .crash) ∧
    (SyntheticDataset.make (2 ^ 30) (2 ^ 31) (2 ^ 30) (2 ^ 31) =
        .ok ⟨2 ^ 30, 2 ^ 31, 2 ^ 30, 2 ^ 31⟩ ∧
      SyntheticDataset.paddedBytes ⟨2 ^ 30, 2 ^ 31, 2 ^ 30, 2 ^ 31⟩ < UInt64.size ∧
      (write emptyPlace oversizedRequest).result = .error .crash) := by
  have hlossless := Compression.isLossless_zlib
  have hcrowded : SyntheticDataset.make 2 2 2 2 = .ok ⟨2, 2, 2, 2⟩ := rfl
  have hoversized : SyntheticDataset.make (2 ^ 30) (2 ^ 31) (2 ^ 30) (2 ^ 31) =
      .ok ⟨2 ^ 30, 2 ^ 31, 2 ^ 30, 2 ^ 31⟩ := by
    decide +kernel
  refine ⟨hlossless, isWritable_emptyPlace, ⟨hcrowded, rfl, ?_⟩, hoversized, by decide +kernel, ?_⟩
  · exact result_write_crash hlossless hcrowded (by decide) (by decide) (by decide)
      isWritable_emptyPlace (.inr (by decide))
  · exact result_write_crash hlossless hoversized (by decide) (by decide) (by decide)
      isWritable_emptyPlace (.inl (by decide +kernel))

end Command

end FilteredChunks
