import FilteredChunks.Proofs.Filter.Lossless
import FilteredChunks.Proofs.Writer.Sequential

/-!
# Writing that cannot fail

If every step of a pipeline has a codec that takes any bytes, a write applies every step
(`runSteps_of_accepting`); if the codecs are lawful too, what it stores is read back.  For a writer this
says that no chunk with bytes fails, and that what is stored of it is decoded to its data
(`filtered_of_accepting`).
-/

namespace FilteredChunks

namespace Engine

variable {σ τ : Type} [CodecSource σ] [CodecSource τ]

/-- A step that has a lawful codec which takes any bytes; reading finds the same codec. -/
structure Accepting (source : σ) (source' : τ) (x : FilterStep × Nat) : Prop where
  index_lt : x.2 < 32
  definition : x.1.flags.isDefinition = true
  readable : x.1.IsReadable
  found : ∃ c, CodecSource.codec source x.2 x.1 = some c ∧
    CodecSource.codec source' x.2 x.1 = some c ∧ c.codec.IsLawful ∧ c.codec.Accepts x.1.words

theorem Accepting.reversible {source : σ} {source' : τ} {x : FilterStep × Nat}
    (h : Accepting source source' x) : Reversible source source' x := by
  obtain ⟨c, hc, hc', hlawful, -⟩ := h.found
  refine ⟨h.index_lt, h.definition, hc'.trans hc.symm, fun c₁ hc₁ => ?_⟩
  rw [hc] at hc₁
  cases hc₁
  exact hlawful

/-- What `n` bytes grow to at most in some steps. -/
def growthIn : (steps : Nat) → Nat → Nat
  | 0, n => n
  | steps + 1, n => growthIn steps (growth n)

theorem growth_mono {m n : Nat} (h : m ≤ n) : growth m ≤ growth n := by
  unfold growth
  omega

theorem growthIn_mono (steps : Nat) {m n : Nat} (h : m ≤ n) : growthIn steps m ≤ growthIn steps n := by
  induction steps generalizing m n with
  | zero => exact h
  | succ steps ih => exact ih (growth_mono h)

theorem growthIn_le_of_le {steps steps' : Nat} (h : steps ≤ steps') (n : Nat) :
    growthIn steps n ≤ growthIn steps' n := by
  induction h with
  | refl => exact Nat.le_refl _
  | @step steps' _ ih =>
    refine Nat.le_trans ih ?_
    exact growthIn_mono steps' (le_growth n)

/-- **A write applies every step**, and no step makes the bytes grow by much. -/
theorem runSteps_of_accepting {options : Options} {source : σ} {source' : τ}
    (hw : options.direction = .write) {steps : List (FilterStep × Nat)}
    (hsteps : ∀ x ∈ steps, Accepting source source' x) {p : Progress σ} (hp : p.source = source)
    (hmask : ∀ x ∈ steps, p.mask.isSet x.2 = false) (hvalid : p.buffer.IsValid)
    (hpos : 0 < p.buffer.nbytes) :
    ∃ p', runSteps options steps p = (.ok (), p') ∧ p'.mask = p.mask ∧ p'.buffer.IsValid ∧
      0 < p'.buffer.nbytes ∧ p'.buffer.nbytes ≤ growthIn steps.length p.buffer.nbytes := by
  induction steps generalizing p with
  | nil => exact ⟨p, rfl, rfl, hvalid, hpos, Nat.le_refl _⟩
  | cons x rest ih =>
    have hx := hsteps x List.mem_cons_self
    obtain ⟨c, hc, -, hlawful, haccepts⟩ := hx.found
    obtain ⟨n, left, htransform, hgrowth⟩ :=
      haccepts x.1.flags p.buffer.nbytes p.buffer.data hx.definition hpos hvalid
    have hfits := hlawful.fits _ _ _ _ _ _ hx.definition hpos hvalid (Nat.succ_pos n) htransform
    rw [← Options.callFlags_write hw x.1.flags] at htransform
    have hstep := runStep_applied (hmask x List.mem_cons_self) (by rw [hp]; exact hc) hx.readable
      htransform
    rw [runSteps, hstep]
    obtain ⟨p', hrun, hmask', hvalid', hpos', hlength⟩ :=
      ih (p := ((p.note (.lookup x.2 x.1.id)).noteCall c (x.1.flags ||| options.callFlags)
        x.1.words).leave left (n + 1)) (fun y hy => hsteps y (List.mem_cons_of_mem x hy)) hp
        (fun y hy => hmask y (List.mem_cons_of_mem x hy)) hfits (Nat.succ_pos n)
    exact ⟨p', hrun, hmask', hvalid', hpos', Nat.le_trans hlength (growthIn_mono _ hgrowth)⟩

theorem restored_of_runSteps {pipeline : FilterPipeline} {source : σ} {source' : τ}
    (hsteps : ∀ x ∈ pipeline.steps.zipIdx, Reversible source source' x)
    (hempty : pipeline.isEmpty = false) {options : Options} (hw : options.direction = .write)
    (hno : options.onFailure = none) {data : Bytes} (hne : data ≠ []) {p : Progress σ}
    (h : runSteps options pipeline.steps.zipIdx ⟨.ofBytes data, options.exclude, source, [], []⟩ =
      (.ok (), p)) : (decode pipeline source' p.buffer.toBytes p.mask).restored = .ok data := by
  have hflags : ({ Options.read with exclude := p.mask } : Options).callFlags = .reverse := rfl
  obtain ⟨left, hleft, hleft0, hundo⟩ :=
    undoes_of_runSteps hw hno hflags hsteps (by simp [List.nodup_range']) rfl
      (ChunkBuffer.holds_ofBytes data) hne h
  obtain ⟨q, hq, -, -, hbytes⟩ := hundo ⟨.ofBytes left, p.mask, source', [], []⟩ rfl rfl
    (ChunkBuffer.holds_ofBytes left)
  rw [hleft.toBytes_eq, decode,
    run_eq hempty (by simpa [ChunkBuffer.ofBytes] using hleft0) hleft0 hq]
  exact congrArg Except.ok hbytes.toBytes_eq

theorem restored_of_run {pipeline : FilterPipeline} {source : σ} {source' : τ}
    (hsteps : ∀ x ∈ pipeline.steps.zipIdx, Reversible source source' x)
    {options : Options} (hw : options.direction = .write) (hno : options.onFailure = none)
    {data bytes : Bytes} {outcome : Outcome}
    (h : (run pipeline options source (.ofBytes data)).result = .ok outcome)
    (hbytes : (run pipeline options source (.ofBytes data)).buffer.valid? = some bytes) :
    (decode pipeline source' bytes outcome.mask).restored = .ok data := by
  obtain ⟨-, rfl⟩ := ChunkBuffer.valid?_eq_some_iff.1 hbytes
  cases hempty : pipeline.isEmpty with
  | true =>
    -- without steps the data are stored as they are
    rw [run, if_pos hempty, decode, run, if_pos hempty]
    exact congrArg Except.ok ((ChunkBuffer.toBytes_ofBytes _).trans (ChunkBuffer.toBytes_ofBytes data))
  | false =>
    obtain ⟨-, hne, p, hrun, hmask, hbuffer⟩ := exists_runSteps_of_run hempty h
    rw [hw] at hrun
    rw [hmask, hbuffer]
    exact restored_of_runSteps hsteps hempty hw hno hne hrun

end Engine

namespace ChunkWriter

/-- **A chunk with bytes is filtered by every step and can be read back.** -/
theorem filtered_of_accepting {τ : Type} [CodecSource τ] {w : ChunkWriter} {source' : τ}
    (hexclude : w.exclude = .empty) (hno : w.onFailure = none)
    (hsteps : ∀ x ∈ w.pipeline.steps.zipIdx, Engine.Accepting w.codecs source' x) {chunk : Chunk}
    (hne : chunk.data ≠ []) :
    ∃ bytes, w.filtered chunk = .ok (.empty, bytes) ∧
      bytes.length ≤ Engine.growthIn w.pipeline.length chunk.data.length ∧
      (Engine.decode w.pipeline source' bytes .empty).restored = .ok chunk.data := by
  have hoptions : w.options = Engine.Options.write := by
    rw [options, hexclude, hno]
    rfl
  cases hempty : w.pipeline.isEmpty with
  | true =>
    -- without steps the data are stored as they are
    refine ⟨chunk.data, ?_, Engine.growthIn_le_of_le (Nat.zero_le _) _, ?_⟩
    · rw [filtered, hoptions, Engine.run, if_pos hempty]
      dsimp only
      rw [(ChunkBuffer.isValid_ofBytes _).valid?_eq, ChunkBuffer.toBytes_ofBytes]
      rfl
    · rw [Engine.decode, Engine.run, if_pos hempty]
      exact congrArg Except.ok (ChunkBuffer.toBytes_ofBytes _)
  | false =>
    have hpos : 0 < (ChunkBuffer.ofBytes chunk.data).nbytes := List.length_pos_iff.2 hne
    obtain ⟨p, hrun, hmask, hvalid, hpos', hlength⟩ :=
      Engine.runSteps_of_accepting
        (p := ⟨.ofBytes chunk.data, Engine.Options.write.exclude, w.codecs, [], []⟩)
        (rfl : Engine.Options.write.direction = .write) hsteps rfl
        (fun x _ => FilterMask.isSet_empty x.2) (ChunkBuffer.isValid_ofBytes _) hpos
    have hbytes : p.buffer.toBytes.length = p.buffer.nbytes := by
      rw [ChunkBuffer.toBytes, List.length_take, Nat.min_eq_left hvalid]
    refine ⟨p.buffer.toBytes, ?_, ?_, ?_⟩
    · rw [filtered, hoptions, Engine.run_eq hempty (Nat.ne_of_gt hpos) hne hrun]
      dsimp only [Except.map]
      rw [hvalid.valid?_eq, hmask]
      rfl
    · rw [List.length_zipIdx] at hlength
      rw [hbytes]
      exact hlength
    · have hrestored := Engine.restored_of_runSteps (fun x hx => (hsteps x hx).reversible) hempty
        (rfl : Engine.Options.write.direction = .write) rfl hne hrun
      rw [hmask] at hrestored
      exact hrestored

end ChunkWriter

end FilteredChunks
