import FilteredChunks.CodecTable
import FilteredChunks.Proofs.Engine.Step
import FilteredChunks.Proofs.Pipeline.Built
import FilteredChunks.Sample.Codec

/-!
# Reading undoes writing

A codec is *lawful* (`Codec.IsLawful`) if a forward call that fails keeps the buffer and one that
succeeds can be undone from the bytes it left, whatever lies behind them.  The main statement is
`decode_of_run_write`: with lawful codecs, what a run stored is decoded to what it was given, under any
exclusions and with steps that were skipped, missing or had failed.

The proof pairs each step of the write with its undoing: `Undoes` says that some steps taken backwards
lead from one byte string to another, `undoes_of_passes` that it holds of one step of the write, and
`undoes_of_runSteps`, by induction on the steps, of all of them.
-/

namespace FilteredChunks

/-- The valid bytes of a buffer are the given ones. -/
def ChunkBuffer.Holds (b : ChunkBuffer) (bytes : Bytes) : Prop :=
  b.nbytes = bytes.length ∧ bytes <+: b.data

/-- **Lawful codecs.**  Forward calls are those with definition flags. -/
structure Codec.IsLawful (c : Codec) : Prop where
  /-- A failure keeps the buffer. -/
  keeps : ∀ (flags : FilterFlags) (words : List UInt32) (nbytes : Nat) (data left : Bytes),
    flags.isDefinition = true → 0 < nbytes → nbytes ≤ data.length →
    c.transform flags words nbytes data = .produced 0 left → left = data
  /-- The bytes that count are there. -/
  fits : ∀ (flags : FilterFlags) (words : List UInt32) (nbytes count : Nat) (data left : Bytes),
    flags.isDefinition = true → 0 < nbytes → nbytes ≤ data.length → 0 < count →
    c.transform flags words nbytes data = .produced count left → count ≤ left.length
  /-- The reverse call undoes the forward one on every buffer that starts with its output. -/
  undone : ∀ (flags : FilterFlags) (words : List UInt32) (nbytes count : Nat)
    (data left given : Bytes),
    flags.isDefinition = true → 0 < nbytes → nbytes ≤ data.length → 0 < count →
    c.transform flags words nbytes data = .produced count left → left.take count <+: given →
    ∃ restored, c.transform (flags ||| .reverse) words count given = .produced nbytes restored ∧
      data.take nbytes <+: restored

namespace ChunkBuffer

theorem holds_ofBytes (data : Bytes) : (ofBytes data).Holds data := ⟨rfl, List.prefix_rfl⟩

theorem Holds.toBytes_eq {b : ChunkBuffer} {bytes : Bytes} (h : b.Holds bytes) :
    b.toBytes = bytes := by
  rw [toBytes, h.1]
  exact (List.prefix_iff_eq_take.1 h.2).symm

theorem Holds.nbytes_le {b : ChunkBuffer} {bytes : Bytes} (h : b.Holds bytes) :
    b.nbytes ≤ b.data.length := by
  rw [h.1]
  exact h.2.length_le

theorem Holds.nbytes_pos {b : ChunkBuffer} {bytes : Bytes} (h : b.Holds bytes) (hne : bytes ≠ []) :
    0 < b.nbytes := by
  rw [h.1]
  exact List.length_pos_iff.2 hne

theorem holds_take {data : Bytes} {n : Nat} (h : n ≤ data.length) :
    (⟨data, n⟩ : ChunkBuffer).Holds (data.take n) :=
  ⟨by simp [h], List.take_prefix _ _⟩

end ChunkBuffer

namespace Engine

/-! ### Masks -/

section Masks

variable {σ : Type} [CodecSource σ] {options : Options}

theorem isSet_of_passes {index : Nat} {step : FilterStep} {p p' : Progress σ}
    (h : Passes options index step p p') {j : Nat} (hj : index ≠ j) :
    p'.mask.isSet j = p.mask.isSet j := by
  have skip : ∀ q : Progress σ, (q.skip index).mask.isSet j = q.mask.isSet j := by
    intro q
    rw [Progress.skip, FilterMask.isSet_set]
    simp [hj]
  have found : ∀ {c q}, Finds options index step p c q → q.mask = p.mask := by
    intro c q hc
    cases hc <;> rfl
  cases h with
  | masked hm => rfl
  | absent hm hw hc ho => exact skip _
  | applied hm c q hc n data ht => exact congrArg (·.isSet j) (found hc)
  | forgiven hm c q p' hc data ht hf =>
    cases hf with
    | optional hw ho => exact (skip _).trans (congrArg (·.isSet j) (found hc))
    | rescued callback seen hcallback hseen hgo hm =>
      exact (skip _).trans (congrArg (·.isSet j) (found hc))

theorem isSet_of_runSteps {steps : List (FilterStep × Nat)} {p p' : Progress σ}
    (h : runSteps options steps p = (.ok (), p')) {j : Nat} (hj : j ∉ steps.map Prod.snd) :
    p'.mask.isSet j = p.mask.isSet j := by
  induction steps generalizing p with
  | nil =>
    cases h
    rfl
  | cons x rest ih =>
    obtain ⟨step, index⟩ := x
    rw [List.map_cons, List.mem_cons, not_or] at hj
    rw [runSteps] at h
    split at h
    · next p₁ hstep =>
      rw [ih h hj.2]
      exact isSet_of_passes (passes_of_runStep hstep) (Ne.symm hj.1)
    · cases h

end Masks

/-! ### Undoing one step -/

/-- Steps taken backwards lead from a buffer that holds `left` to one that holds `bytes`, keeping the
source and the mask. -/
def Undoes {τ : Type} [CodecSource τ] (options : Options) (source : τ) (mask : FilterMask)
    (steps : List (FilterStep × Nat)) (left bytes : Bytes) : Prop :=
  ∀ q : Progress τ, q.source = source → q.mask = mask → q.buffer.Holds left →
    ∃ q', runSteps options steps.reverse q = (.ok (), q') ∧ q'.source = source ∧ q'.mask = mask ∧
      q'.buffer.Holds bytes

section Undo

variable {σ τ : Type} [CodecSource σ] [CodecSource τ]

/-- What undoing a step relies on: the step has a bit in the mask and definition flags only, reading
finds the codec that writing found, and this codec is lawful. -/
structure Reversible (source : σ) (source' : τ) (x : FilterStep × Nat) : Prop where
  index_lt : x.2 < 32
  definition : x.1.flags.isDefinition = true
  same : CodecSource.codec source' x.2 x.1 = CodecSource.codec source x.2 x.1
  lawful : ∀ c, CodecSource.codec source x.2 x.1 = some c → c.codec.IsLawful

theorem Undoes.nil (options : Options) (source : τ) (mask : FilterMask) (bytes : Bytes) :
    Undoes options source mask [] bytes bytes :=
  fun q hs hm hb => ⟨q, rfl, hs, hm, hb⟩

theorem Undoes.cons {options : Options} {source : τ} {mask : FilterMask} {x : FilterStep × Nat}
    {rest : List (FilterStep × Nat)} {a b c : Bytes} (hx : Undoes options source mask [x] b a)
    (hrest : Undoes options source mask rest c b) : Undoes options source mask (x :: rest) c a := by
  intro q hs hm hb
  obtain ⟨q₁, h₁, hs₁, hm₁, hb₁⟩ := hrest q hs hm hb
  obtain ⟨q₂, h₂, hs₂, hm₂, hb₂⟩ := hx q₁ hs₁ hm₁ hb₁
  refine ⟨q₂, ?_, hs₂, hm₂, hb₂⟩
  rw [List.reverse_cons, runSteps_append, h₁]
  exact h₂

theorem undoes_masked {options : Options} {source : τ} {mask : FilterMask} {x : FilterStep × Nat}
    (h : mask.isSet x.2 = true) (bytes : Bytes) :
    Undoes options source mask [x] bytes bytes := by
  intro q hs hm hb
  refine ⟨q, ?_, hs, hm, hb⟩
  rw [List.reverse_singleton, runSteps, runStep_masked (by rw [hm]; exact h)]
  rfl

theorem undoes_applied {options : Options} {source : σ} {source' : τ} {mask : FilterMask}
    {x : FilterStep × Nat} {c : FilterClass} {count : Nat} {b : ChunkBuffer} {bytes left : Bytes}
    (hflags : options.callFlags = .reverse) (hx : Reversible source source' x)
    (hmask : mask.isSet x.2 = false) (hc : CodecSource.codec source x.2 x.1 = some c)
    (hb : b.Holds bytes) (hne : bytes ≠ []) (hread : x.1.IsReadable)
    (ht : c.codec.transform x.1.flags x.1.words b.nbytes b.data = .produced (count + 1) left) :
    Undoes options source' mask [x] (left.take (count + 1)) bytes := by
  intro q hs hm hq
  have hlen : count + 1 ≤ left.length :=
    (hx.lawful c hc).fits _ _ _ _ _ _ hx.definition (hb.nbytes_pos hne) hb.nbytes_le
      (Nat.succ_pos _) ht
  have hcount : q.buffer.nbytes = count + 1 := by
    rw [hq.1, List.length_take]
    omega
  obtain ⟨restored, hr, hprefix⟩ :=
    (hx.lawful c hc).undone _ _ _ _ _ _ q.buffer.data hx.definition (hb.nbytes_pos hne)
      hb.nbytes_le (Nat.succ_pos _) ht hq.2
  obtain ⟨n, hn⟩ : ∃ n, b.nbytes = n + 1 :=
    Nat.exists_eq_add_one_of_ne_zero (Nat.ne_of_gt (hb.nbytes_pos hne))
  have ht' : c.codec.transform (x.1.flags ||| options.callFlags) x.1.words q.buffer.nbytes
      q.buffer.data = .produced (n + 1) restored := by
    rw [hflags, hcount, hr, hn]
  refine ⟨((q.note (.lookup x.2 x.1.id)).noteCall c (x.1.flags ||| options.callFlags)
    x.1.words).leave restored (n + 1), ?_, hs, hm, ?_, ?_⟩
  · rw [List.reverse_singleton, runSteps,
      runStep_applied (by rw [hm]; exact hmask) (by rw [hs, hx.same, hc]) hread ht']
    rfl
  · show n + 1 = _
    rw [← hn, hb.1]
  · show bytes <+: restored
    rw [← hb.toBytes_eq]
    exact hprefix

/-! ### Undoing a run -/

/-- A step of a write and its undoing, once the mask says of it what the write said. -/
theorem undoes_of_passes {options options' : Options} {source : σ} {source' : τ}
    {mask : FilterMask} {x : FilterStep × Nat} {p p' : Progress σ} {bytes : Bytes}
    (hw : options.direction = .write) (hno : options.onFailure = none)
    (hflags : options'.callFlags = .reverse) (hx : Reversible source source' x)
    (hp : p.source = source) (hb : p.buffer.Holds bytes) (hne : bytes ≠ [])
    (h : Passes options x.2 x.1 p p') (hmask : mask.isSet x.2 = p'.mask.isSet x.2) :
    p'.source = source ∧ ∃ left, p'.buffer.Holds left ∧ left ≠ [] ∧
      Undoes options' source' mask [x] left bytes := by
  have hcall := Options.callFlags_write hw x.1.flags
  have hset : ∀ q : Progress σ, (q.skip x.2).mask.isSet x.2 = true := by
    intro q
    rw [Progress.skip, FilterMask.isSet_set]
    simp [hx.index_lt]
  -- on write nothing is loaded
  have found : ∀ {c q}, Finds options x.2 x.1 p c q →
      CodecSource.codec source x.2 x.1 = some c ∧ q = p.note (.lookup x.2 x.1.id) := by
    intro c q hc
    cases hc with
    | known hc => exact ⟨hp ▸ hc, rfl⟩
    | loaded hr =>
      rw [hw] at hr
      cases hr
  cases h with
  | masked hm => exact ⟨hp, bytes, hb, hne, undoes_masked (hmask.trans hm) bytes⟩
  | absent hm hw hc ho =>
    exact ⟨hp, bytes, hb, hne, undoes_masked (hmask.trans (hset _)) bytes⟩
  | applied hm c q hq n data ht hread =>
    obtain ⟨hc, rfl⟩ := found hq
    rw [hcall] at ht
    have hlen : n + 1 ≤ data.length :=
      (hx.lawful c hc).fits _ _ _ _ _ _ hx.definition (hb.nbytes_pos hne) hb.nbytes_le
        (Nat.succ_pos n) ht
    refine ⟨hp, data.take (n + 1), ChunkBuffer.holds_take hlen, ?_, ?_⟩
    · rw [← List.length_pos_iff, List.length_take]
      omega
    · exact undoes_applied hflags hx (hmask.trans hm) hc hb hne hread ht
  | forgiven hm c q p' hq data ht hf =>
    obtain ⟨hc, rfl⟩ := found hq
    rw [hcall] at ht
    -- the codec is lawful: what it left is what it was given
    obtain rfl : data = p.buffer.data :=
      (hx.lawful c hc).keeps _ _ _ _ _ hx.definition (hb.nbytes_pos hne) hb.nbytes_le ht
    cases hf with
    | optional hw ho => exact ⟨hp, bytes, hb, hne, undoes_masked (hmask.trans (hset _)) bytes⟩
    | rescued callback seen hcallback => rw [hno] at hcallback; cases hcallback

/-- **The steps of a write can be undone** from what they left, with the mask they left. -/
theorem undoes_of_runSteps {options options' : Options} {source : σ} {source' : τ}
    (hw : options.direction = .write) (hno : options.onFailure = none)
    (hflags : options'.callFlags = .reverse) {steps : List (FilterStep × Nat)}
    (hsteps : ∀ x ∈ steps, Reversible source source' x) (hnodup : (steps.map Prod.snd).Nodup)
    {p p' : Progress σ} {bytes : Bytes} (hp : p.source = source) (hb : p.buffer.Holds bytes)
    (hne : bytes ≠ []) (h : runSteps options steps p = (.ok (), p')) :
    ∃ left, p'.buffer.Holds left ∧ left ≠ [] ∧
      Undoes options' source' p'.mask steps left bytes := by
  induction steps generalizing p bytes with
  | nil =>
    cases h
    exact ⟨bytes, hb, hne, Undoes.nil _ _ _ _⟩
  | cons x rest ih =>
    rw [List.map_cons, List.nodup_cons] at hnodup
    rw [runSteps] at h
    split at h
    · next p₁ hstep =>
      -- no later step touches the bit of `x`
      have hmask : p'.mask.isSet x.2 = p₁.mask.isSet x.2 := isSet_of_runSteps h hnodup.1
      obtain ⟨hp₁, mid, hmid, hmid0, hx⟩ :=
        undoes_of_passes hw hno hflags (hsteps x List.mem_cons_self) hp hb hne
          (passes_of_runStep hstep) hmask
      obtain ⟨left, hleft, hleft0, hrest⟩ :=
        ih (fun y hy => hsteps y (List.mem_cons_of_mem x hy)) hnodup.2 hp₁ hmid hmid0 h
      exact ⟨left, hleft, hleft0, hx.cons hrest⟩
    · cases h

theorem reversible_of_sound {pipeline : FilterPipeline} {source : σ} {source' : τ}
    (hp : pipeline.Sound)
    (same : ∀ index step, pipeline.get? index = some step →
      CodecSource.codec source' index step = CodecSource.codec source index step)
    (lawful : ∀ index step c, pipeline.get? index = some step →
      CodecSource.codec source index step = some c → c.codec.IsLawful) :
    ∀ x ∈ pipeline.steps.zipIdx, Reversible source source' x := by
  rintro ⟨step, index⟩ hx
  have hget : pipeline.get? index = some step := List.mem_zipIdx_iff_getElem?.1 hx
  obtain ⟨hindex, hstep⟩ := List.getElem?_eq_some_iff.1 hget
  refine ⟨?_, ?_, same index step hget, fun c => lawful index step c hget⟩
  · exact Nat.lt_of_lt_of_le hindex hp.length_le
  · exact hp.definition step (hstep ▸ List.getElem_mem hindex)

theorem reversible_of_mem {pipeline : FilterPipeline} {source : σ} {source' : τ}
    (hp : pipeline.Built)
    (same : ∀ index step, pipeline.get? index = some step →
      CodecSource.codec source' index step = CodecSource.codec source index step)
    (lawful : ∀ index step c, pipeline.get? index = some step →
      CodecSource.codec source index step = some c → c.codec.IsLawful) :
    ∀ x ∈ pipeline.steps.zipIdx, Reversible source source' x :=
  reversible_of_sound hp.sound same lawful

/-- **Reading undoes writing.**  Of any pipeline that edits can make, with lawful codecs where it has
codecs at all and with any steps excluded: what a run without a failure callback stored is decoded,
with the mask it left and by a source that has the same codecs, to the bytes that were written. -/
theorem decode_of_run_write {pipeline : FilterPipeline} (hp : pipeline.Built) {source : σ}
    {source' : τ}
    (same : ∀ index step, pipeline.get? index = some step →
      CodecSource.codec source' index step = CodecSource.codec source index step)
    (lawful : ∀ index step c, pipeline.get? index = some step →
      CodecSource.codec source index step = some c → c.codec.IsLawful)
    (exclude : FilterMask) (checks : Bool) {data : Bytes} (hne : data ≠ []) {stored : Bytes}
    {mask : FilterMask}
    (h : (run pipeline ⟨.write, exclude, checks, none⟩ source (.ofBytes data)).stored =
      .ok (stored, mask)) :
    (decode pipeline source' stored mask).restored = .ok data := by
  cases hempty : pipeline.isEmpty with
  | true =>
    -- without steps the data are stored as they are
    rw [run, if_pos hempty] at h
    cases h
    rw [decode, run, if_pos hempty]
    exact congrArg Except.ok ((ChunkBuffer.toBytes_ofBytes _).trans
      (ChunkBuffer.toBytes_ofBytes data))
  | false =>
    have hlength : (ChunkBuffer.ofBytes data).nbytes ≠ 0 := by
      simpa [ChunkBuffer.ofBytes] using hne
    rcases hsteps : runSteps ⟨.write, exclude, checks, none⟩ pipeline.steps.zipIdx
      ⟨.ofBytes data, exclude, source, [], []⟩ with ⟨_ | ⟨⟩, p⟩
    · rw [run_eq hempty hlength hne hsteps] at h
      cases h
    · rw [run_eq hempty hlength hne hsteps] at h
      cases h
      have hflags : ({ Options.read with exclude := p.mask } : Options).callFlags = .reverse := rfl
      obtain ⟨left, hleft, hleft0, hundo⟩ :=
        undoes_of_runSteps rfl rfl hflags (reversible_of_mem hp same lawful)
          (by simp [List.nodup_range']) rfl (ChunkBuffer.holds_ofBytes data) hne hsteps
      obtain ⟨q, hq, -, -, hbytes⟩ := hundo ⟨.ofBytes left, p.mask, source', [], []⟩ rfl rfl
        (ChunkBuffer.holds_ofBytes left)
      rw [hleft.toBytes_eq, decode, run_eq hempty (by simpa [ChunkBuffer.ofBytes] using hleft0)
        hleft0 hq]
      exact congrArg Except.ok hbytes.toBytes_eq

end Undo

/-! ### Sample codecs that are lawful -/

theorem isLawful_appending (byte : UInt8) (check : SampleCheck) (tuning : SampleTuning) :
    (Codec.ofSample (.appending byte) check tuning).IsLawful := by
  have forward : ∀ {flags words nbytes data count left}, flags.isDefinition = true →
      nbytes ≤ data.length →
      (Codec.ofSample (.appending byte) check tuning).transform flags words nbytes data =
        .produced count left → count = nbytes + 1 ∧ left = data.take nbytes ++ [byte] := by
    intro flags words nbytes data count left hflags hle h
    simp only [Codec.ofSample, SampleCodec.transform,
      FilterFlags.contains_reverse_of_isDefinition hflags, SampleCodec.whole] at h
    cases h
    simp [hle]
  refine ⟨?_, ?_, ?_⟩
  · intro flags words nbytes data left hflags _ hle h
    have := (forward hflags hle h).1
    omega
  · intro flags words nbytes count data left hflags _ hle _ h
    obtain ⟨rfl, rfl⟩ := forward hflags hle h
    simp [hle]
  · intro flags words nbytes count data left given hflags _ hle _ h hgiven
    obtain ⟨rfl, rfl⟩ := forward hflags hle h
    refine ⟨given, ?_, ?_⟩
    · simp [Codec.ofSample, SampleCodec.transform, FilterFlags.contains_reverse_or]
    · rw [List.take_of_length_le (by simp [hle])] at hgiven
      exact (List.prefix_append _ _).trans hgiven

theorem isLawful_failing (check : SampleCheck) (tuning : SampleTuning) :
    (Codec.ofSample .failing check tuning).IsLawful := by
  have failed : ∀ {flags words nbytes data count left},
      (Codec.ofSample .failing check tuning).transform flags words nbytes data =
        .produced count left → count = 0 ∧ left = data := by
    intro flags words nbytes data count left h
    cases h
    exact ⟨rfl, rfl⟩
  refine ⟨?_, ?_, ?_⟩
  · intro flags words nbytes data left _ _ _ h
    exact (failed h).2
  · intro flags words nbytes count data left _ _ _ hpos h
    exact absurd (failed h).1 (Nat.ne_of_gt hpos)
  · intro flags words nbytes count data left given _ _ _ hpos h
    exact absurd (failed h).1 (Nat.ne_of_gt hpos)

/-! ### A run with every kind of step -/

/-- A step that applies, one whose codec is missing and one whose codec fails. -/
def mixedSteps : List FilterStep :=
  [.ofWords 300 .mandatory [5], .ofWords 301 .optional [], .ofWords 302 .optional []]

/-- The classes for these steps; the second does not have the number of its step. -/
def mixedTable (mode : OpenMode) : CodecTable where
  mode := mode
  classes :=
    [.ofCodec 300 "append" (.ofSample (.appending 7) .always .keep) (.application 0),
      .ofCodec 400 "other" (.ofSample .failing .always .keep) (.application 1),
      .ofCodec 302 "fail" (.ofSample .failing .always .keep) (.application 2)]

theorem built_mixedSteps : (⟨mixedSteps, 32⟩ : FilterPipeline).Built := by
  have h₁ : FilterPipeline.Built ⟨mixedSteps.take 1, 32⟩ :=
    .push .empty (.ofWords 300 .mandatory [5]) rfl
  have h₂ : FilterPipeline.Built ⟨mixedSteps.take 2, 32⟩ :=
    .push h₁ (.ofWords 301 .optional []) rfl
  exact .push h₂ (.ofWords 302 .optional []) rfl

theorem isLawful_mixedTable {mode : OpenMode} {index : Nat} {step : FilterStep} {c : FilterClass}
    (h : CodecSource.codec (mixedTable mode) index step = some c) : c.codec.IsLawful := by
  obtain ⟨hc, -⟩ := Option.filter_eq_some_iff.1 h
  have hmem : c ∈ (mixedTable mode).classes := List.mem_of_getElem? hc
  simp only [mixedTable, List.mem_cons, List.not_mem_nil, or_false] at hmem
  rcases hmem with rfl | rfl | rfl
  · exact isLawful_appending 7 .always .keep
  · exact isLawful_failing .always .keep
  · exact isLawful_failing .always .keep

theorem decode_of_run_write_mixed :
    (⟨mixedSteps, 32⟩ : FilterPipeline).Built ∧
    (∀ (index : Nat) (step : FilterStep), (⟨mixedSteps, 32⟩ : FilterPipeline).get? index = some step →
      CodecSource.codec (mixedTable .read) index step =
        CodecSource.codec (mixedTable .write) index step) ∧
    (∀ (index : Nat) (step : FilterStep) (c : FilterClass),
      (⟨mixedSteps, 32⟩ : FilterPipeline).get? index = some step →
        CodecSource.codec (mixedTable .write) index step = some c → c.codec.IsLawful) ∧
    ([1, 2, 3] : Bytes) ≠ [] ∧
    (run ⟨mixedSteps, 32⟩ ⟨.write, .empty, true, none⟩ (mixedTable .write)
      (.ofBytes [1, 2, 3])).stored = .ok ([1, 2, 3, 7], ⟨6⟩) ∧
    (decode ⟨mixedSteps, 32⟩ (mixedTable .read) [1, 2, 3, 7] ⟨6⟩).restored = .ok [1, 2, 3] := by
  have hstored : (run ⟨mixedSteps, 32⟩ ⟨.write, .empty, true, none⟩ (mixedTable .write)
      (.ofBytes [1, 2, 3])).stored = .ok ([1, 2, 3, 7], ⟨6⟩) := by rfl
  refine ⟨built_mixedSteps, fun _ _ _ => rfl, fun _ _ _ _ h => isLawful_mixedTable h, by decide,
    hstored, ?_⟩
  exact decode_of_run_write built_mixedSteps (fun _ _ _ => rfl)
    (fun _ _ _ _ h => isLawful_mixedTable h) .empty true (by decide) hstored

end Engine

end FilteredChunks
