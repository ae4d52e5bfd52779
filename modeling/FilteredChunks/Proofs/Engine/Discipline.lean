import FilteredChunks.Proofs.Engine.Tolerance
import FilteredChunks.Proofs.Engine.Turns
import FilteredChunks.Proofs.Pipeline.Built

/-!
# The discipline of a run

What a run asks for follows a script (`disciplined_run`).  Steps are taken in order, without those excluded,
up to the first one that is fatal.  At each turn a class is looked up, and loaded only on read and only if it
is not known; the codec is called with the flags of its step, on read also with those that tell it to go
back; and the callback is asked about every failure that it may forgive.

The last point takes codecs that keep to their buffer (`Codec.IsModest`), since on write the callback is
shown the valid bytes, which must be there.  A buffer starts out valid, and only a codec that does not keep to
it leaves one that is not.
-/

namespace FilteredChunks

/-- A codec that, given a valid buffer, reports no more bytes than it leaves and does not shorten the buffer
when it fails. -/
structure Codec.IsModest (c : Codec) : Prop where
  fits : ∀ flags words nbytes data n left, nbytes ≤ data.length →
    c.transform flags words nbytes data = .produced n left → n ≤ left.length
  kept : ∀ flags words nbytes data left, nbytes ≤ data.length →
    c.transform flags words nbytes data = .produced 0 left → data.length ≤ left.length

namespace Engine

variable {σ : Type} [CodecSource σ] {options : Options} {t : Turn σ}

/-! ### What is asked for at a turn -/

/-- What the callback is shown if a codec has failed and left `data`: on write the valid bytes, on read the
whole buffer. -/
def Turn.shown (options : Options) (t : Turn σ) (data : Bytes) : Bytes :=
  match options.direction with
  | .write => data.take t.came.buffer.nbytes
  | .read => data

/-- What is asked for at a turn by a run that writes. -/
structure Turn.AsksToWrite (options : Options) (t : Turn σ) : Prop where
  loads : t.loads options = []
  flags : t.flags options = t.step.flags
  forward : (t.flags options).contains .reverse = false
  checked : (t.flags options).contains .skipChecks = false

/-- What is asked for at a turn by a run that reads. -/
structure Turn.AsksToRead (options : Options) (t : Turn σ) : Prop where
  loads : t.loads options = if t.found = none then [.load t.step.id] else []
  flags : t.flags options = t.step.flags ||| options.callFlags
  backward : (t.flags options).contains .reverse = true
  checked : (t.flags options).contains .skipChecks = !options.checks
  /-- No step may go without a codec. -/
  missing : t.class? options = none → ¬ t.Goes options

theorem Turn.asksToWrite (hw : options.direction = .write) (h : t.step.flags.isDefinition = true) :
    t.AsksToWrite options := by
  have hflags : t.flags options = t.step.flags := by rw [Turn.flags, hw]
  have hwrite : ¬ (options.direction = .read ∧ t.found = none) := by simp [hw]
  refine ⟨if_neg hwrite, hflags, ?_, ?_⟩
  · rw [hflags]
    exact FilterFlags.contains_reverse_of_isDefinition h
  · rw [hflags]
    exact FilterFlags.contains_skipChecks_of_isDefinition h

theorem Turn.asksToRead (hr : options.direction = .read) (h : t.step.flags.isDefinition = true) :
    t.AsksToRead options := by
  refine ⟨?_, Turn.flags_eq, ?_, ?_, fun hnone => ?_⟩
  · rw [Turn.loads]
    simp [hr]
  · rw [Turn.flags_eq]
    exact Options.contains_reverse hr _
  · rw [Turn.flags, hr]
    cases options.checks with
    | true =>
      exact (FilterFlags.contains_or_of_disjoint _ (by decide)).trans
        (FilterFlags.contains_skipChecks_of_isDefinition h)
    | false => exact FilterFlags.contains_or_right ..
  · exact Turn.not_goes_of_class?_eq_none hnone fun hmay => by cases hr.symm.trans hmay.1

theorem Turn.asks_eq_nil (h : (∀ data, t.reply? options ≠ some (.produced 0 data)) ∨
    t.MayFail options ∨ options.onFailure = none) : t.asks options = [] := by
  rw [Turn.asks]
  split
  · next data hfailed =>
    have hunasked : t.shown? options data = none := by
      rcases h with hnot | hmay | hno
      · exact absurd hfailed (hnot data)
      · exact Turn.shown?_of_mayFail hmay data
      · exact if_neg (by simp [hno])
    rw [hunasked]
    rfl
  · rfl

theorem Turn.asks_of_mustNot {data : Bytes} (hfailed : t.reply? options = some (.produced 0 data))
    (hmust : ¬ t.MayFail options) (hsome : options.onFailure.isSome = true)
    (hthere : options.direction = .write → t.came.buffer.nbytes ≤ data.length) :
    t.asks options = [.callback t.step.id (t.shown options data)] := by
  have hseen : options.seen? ⟨data, t.came.buffer.nbytes⟩ = some (t.shown options data) := by
    cases hdirection : options.direction with
    | write =>
      rw [Options.seen?, hdirection, Turn.shown, hdirection]
      exact ChunkBuffer.IsValid.valid?_eq (hthere hdirection)
    | read => rw [Options.seen?, hdirection, Turn.shown, hdirection]
  rw [Turn.asks_of_failed hfailed, Turn.shown?, if_pos ⟨hsome, hmust⟩, hseen]
  rfl

/-! ### What holds at every turn -/

/-- What a run starts with, and each turn keeps, holds at every turn. -/
theorem Takes.came {motive : Progress σ → Prop} {steps : List (FilterStep × Nat)} {p : Progress σ}
    {ts : List (Turn σ)} {stage : Stage σ Unit} (h : Takes options steps p ts stage) (hp : motive p)
    (hkeep : ∀ (t : Turn σ) (q : Progress σ), t.numbered ∈ steps → t.Went options q →
      motive t.came → motive q) :
    ∀ t ∈ ts, motive t.came := by
  induction h with
  | done => nofun
  | masked _ _ ih => exact ih hp fun t q ht => hkeep t q (List.mem_cons_of_mem _ ht)
  | @went t q _ _ _ _ hwent _ ih =>
    have hq : motive q := hkeep t q List.mem_cons_self hwent hp
    intro u hu
    rcases List.mem_cons.1 hu with rfl | hu
    · exact hp
    · exact ih hq (fun t q ht => hkeep t q (List.mem_cons_of_mem _ ht)) u hu
  | ended =>
    intro u hu
    rw [List.mem_singleton.1 hu]
    exact hp

variable {pipeline : FilterPipeline} {source : σ} {buffer : ChunkBuffer}

theorem Turn.fills (h : CodecSource.Fills source t.came.source) :
    CodecSource.Fills source (t.source options) := by
  rw [Turn.source]
  split
  · next hloads => exact h.load t.index t.step hloads.2
  · exact h

theorem Turn.uses (ht : t.numbered ∈ ordered options.direction pipeline.steps)
    (h : CodecSource.Fills source t.came.source) {c : FilterClass} (hc : t.class? options = some c) :
    Uses options.direction pipeline source c :=
  ⟨t.came.source, t.index, t.step, h, mem_ordered_iff.1 ht, hc⟩

theorem Turn.isValid_leaves (hmodest : ∀ c, t.class? options = some c → c.codec.IsModest)
    (h : t.came.buffer.IsValid) : (t.leaves options).IsValid := by
  cases hreply : t.reply? options with
  | none =>
    rw [Turn.leaves_of_absent hreply]
    exact h
  | some reply =>
    cases reply with
    | crashed =>
      rw [Turn.leaves, hreply]
      exact h
    | produced n data =>
      obtain ⟨c, hc, ht⟩ := Turn.exists_class? hreply
      cases n with
      | succ n =>
        rw [Turn.leaves_of_applied hreply]
        exact (hmodest c hc).fits _ _ _ _ _ _ h ht
      | zero =>
        by_cases hmay : t.MayFail options
        · rw [Turn.leaves_of_mayFail hreply hmay]
          exact Nat.le_trans h ((hmodest c hc).kept _ _ _ _ _ h ht)
        · rw [Turn.leaves_of_mustNot hreply hmay]
          exact ChunkBuffer.isValid_ofBytes data

/-- **With modest codecs every turn comes with a valid buffer.** -/
theorem isValid_came (hbuffer : buffer.IsValid)
    (hmodest : ∀ c, Uses options.direction pipeline source c → c.codec.IsModest) :
    ∀ t ∈ turnsOf pipeline options source buffer,
      CodecSource.Fills source t.came.source ∧ t.came.buffer.IsValid := by
  refine (takes_turnsOf pipeline options source buffer).came
    (motive := fun p => CodecSource.Fills source p.source ∧ p.buffer.IsValid) ⟨.refl, hbuffer⟩ ?_
  intro t q ht hwent ⟨hfills, hvalid⟩
  rw [hwent.source, hwent.buffer]
  exact ⟨Turn.fills hfills, Turn.isValid_leaves (fun c hc => hmodest c (Turn.uses ht hfills hc)) hvalid⟩

/-! ### The script -/

/-- The positions that a run takes ascend on write and descend on read. -/
def Direction.before : Direction → Nat → Nat → Prop
  | .write, i, j => i < j
  | .read, i, j => j < i

/-- A run whose turns are `ts` follows the script. -/
structure Disciplined (pipeline : FilterPipeline) (options : Options) (source : σ)
    (buffer : ChunkBuffer) (ts : List (Turn σ)) : Prop where
  course : IsCourse pipeline options source buffer ts
  steps : ∀ t ∈ ts, pipeline.get? t.index = some t.step ∧ options.exclude.isSet t.index = false
  sorted : (ts.map Turn.index).Pairwise options.direction.before
  write : options.direction = .write → ∀ t ∈ ts, t.AsksToWrite options
  read : options.direction = .read → ∀ t ∈ ts, t.AsksToRead options
  /-- The callback is asked once about a codec that has failed and was not to. -/
  asked : options.direction = .read ∨ buffer.IsValid → ∀ t ∈ ts, ∀ data,
    t.reply? options = some (.produced 0 data) → ¬ t.MayFail options →
      options.onFailure.isSome = true → t.asks options = [.callback t.step.id (t.shown options data)]
  unasked : ∀ t ∈ ts, (∀ data, t.reply? options ≠ some (.produced 0 data)) ∨ t.MayFail options ∨
    options.onFailure = none → t.asks options = []

theorem sorted_ordered (direction : Direction) (steps : List FilterStep) :
    ((ordered direction steps).map Prod.snd).Pairwise direction.before := by
  have hascending : (steps.zipIdx.map Prod.snd).Pairwise (· < ·) := by
    rw [List.zipIdx_map_snd]
    exact List.pairwise_lt_range'
  cases direction with
  | write => exact hascending
  | read =>
    dsimp only [ordered]
    rw [List.map_reverse]
    exact List.pairwise_reverse.2 hascending

/-- **A run over a buffer with bytes follows the script.** -/
theorem disciplined_run (hbuilt : pipeline.Built) (hb : buffer.HasBytes)
    (hmodest : ∀ c, Uses options.direction pipeline source c → c.codec.IsModest) :
    Disciplined pipeline options source buffer (turnsOf pipeline options source buffer) := by
  have hcourse : IsCourse pipeline options source buffer _ := isCourse_run hb
  have hmem (t : Turn σ) (ht : t ∈ turnsOf pipeline options source buffer) :
      pipeline.get? t.index = some t.step := mem_ordered_iff.1 (hcourse.mem_ordered ht)
  have hflags (t : Turn σ) (ht : t ∈ turnsOf pipeline options source buffer) :
      t.step.flags.isDefinition = true :=
    hbuilt.sound.definition t.step (List.mem_of_getElem? (hmem t ht))
  refine ⟨hcourse, fun t ht => ⟨hmem t ht, ?_⟩, ?_, fun hw t ht => Turn.asksToWrite hw (hflags t ht),
    fun hr t ht => Turn.asksToRead hr (hflags t ht), ?_, fun t _ h => Turn.asks_eq_nil h⟩
  · have hkept := (List.mem_filter.1 (hcourse.order.subset (List.mem_map_of_mem ht))).2
    simpa [Turn.numbered] using hkept
  · have hsublist : ((turnsOf pipeline options source buffer).map Turn.index).Sublist
        ((ordered options.direction pipeline.steps).map Prod.snd) := by
      have h := (hcourse.order.sublist.trans List.filter_sublist).map Prod.snd
      rwa [List.map_map] at h
    exact (sorted_ordered ..).sublist hsublist
  · intro hthere t ht data hfailed hmust hsome
    refine Turn.asks_of_mustNot hfailed hmust hsome fun hw => ?_
    have hbuffer : buffer.IsValid := hthere.resolve_left fun hr => by cases hw.symm.trans hr
    obtain ⟨hfills, hvalid⟩ := isValid_came hbuffer hmodest t ht
    obtain ⟨c, hc, hreply⟩ := Turn.exists_class? hfailed
    have hc' := hmodest c (Turn.uses (hcourse.mem_ordered ht) hfills hc)
    exact Nat.le_trans hvalid (hc'.kept _ _ _ _ _ hvalid hreply)

/-! ### A run with every kind of failure -/

theorem isModest_appending (byte : UInt8) :
    (Codec.ofSample (.appending byte) .always .keep).IsModest := by
  constructor
  · intro flags words nbytes data n left hvalid h
    simp only [Codec.ofSample, SampleCodec.transform, SampleCodec.whole] at h
    split at h
    · obtain ⟨rfl, rfl⟩ := Reply.produced.inj h
      omega
    · obtain ⟨rfl, rfl⟩ := Reply.produced.inj h
      exact Nat.le_refl _
  · intro flags words nbytes data left _ h
    exact Nat.le_of_eq (congrArg List.length (failsCleanly_appending byte _ _ _ _ _ h)).symm

theorem isModest_failing : (Codec.ofSample .failing .always .keep).IsModest := by
  constructor
  · intro flags words nbytes data n left _ h
    obtain ⟨rfl, -⟩ := Reply.produced.inj h
    exact Nat.zero_le _
  · intro flags words nbytes data left _ h
    exact Nat.le_of_eq (congrArg List.length (Reply.produced.inj h).2)

theorem isModest_of_uses_tolerated {direction : Direction} {pipeline : FilterPipeline} {c : FilterClass}
    (h : Uses direction pipeline toleratedRegistry c) : c.codec.IsModest := by
  rcases FilterRegistry.provides h.provides with hc | ⟨loader, id, hnone, -⟩
  · simp only [toleratedRegistry, List.mem_cons, List.not_mem_nil, or_false] at hc
    rcases hc with rfl | rfl | rfl
    · exact isModest_appending 7
    · exact isModest_failing
    · exact isModest_failing
  · cases hnone

theorem built_toleratedSteps : FilterPipeline.Built ⟨toleratedSteps, 32⟩ := by
  have h₁ : FilterPipeline.Built ⟨toleratedSteps.take 1, 32⟩ := .append .empty 300 .mandatory [] rfl
  have h₂ : FilterPipeline.Built ⟨toleratedSteps.take 2, 32⟩ := .append h₁ 301 .optional [] rfl
  have h₃ : FilterPipeline.Built ⟨toleratedSteps.take 3, 32⟩ := .append h₂ 302 .optional [] rfl
  exact .append h₃ 303 .mandatory [] rfl

theorem disciplined_run_tolerated :
    let pipeline : FilterPipeline := ⟨toleratedSteps, 32⟩
    let buffer : ChunkBuffer := .ofBytes [1, 2]
    pipeline.Built ∧ buffer.HasBytes ∧ buffer.IsValid ∧
      (∀ c, Uses tolerating.direction pipeline toleratedRegistry c → c.codec.IsModest) ∧
      (run pipeline tolerating toleratedRegistry buffer).events =
        [.lookup 0 300, .call (.application 0) 300 .mandatory [] 2 2,
          .lookup 1 301,
          .lookup 2 302, .call (.application 1) 302 .optional [] 3 3,
          .lookup 3 303, .call (.application 2) 303 .mandatory [] 3 3, .callback 303 [1, 2, 7]] ∧
      Disciplined pipeline tolerating toleratedRegistry buffer
        (turnsOf pipeline tolerating toleratedRegistry buffer) := by
  have hb : (ChunkBuffer.ofBytes [1, 2]).HasBytes := ⟨by decide, by decide⟩
  exact ⟨built_toleratedSteps, hb, by decide, fun c hc => isModest_of_uses_tolerated hc, by rfl,
    disciplined_run built_toleratedSteps hb fun c hc => isModest_of_uses_tolerated hc⟩

end Engine

end FilteredChunks
