import FilteredChunks.Proofs.Engine.Course

/-!
# Runs that differ in their source

The only thing that a run takes from its source is the class of each step that it comes to.  So two
sources that know the same class for every step of a pipeline (`KnowAlike`) are as good as each other:
the runs do the same to the buffer, ask for the same and count the same (`Run.Alike`), and neither of
them changes its source.

A run is carried over to another source by `withSource`.  That calling a codec commutes with it says two
things at once: what the codec does has nothing to do with the source, and, with the source that is
already there, that the source is left alone (`source_callCodec`).
-/

namespace FilteredChunks.Engine

variable {σ τ : Type}

/-- The same progress with another source. -/
def Progress.withSource (p : Progress σ) (source : τ) : Progress τ :=
  ⟨p.buffer, p.mask, source, p.events, p.metrics⟩

/-- The same stage with another source. -/
def withSource {α : Type} (stage : Stage σ α) (source : τ) : Stage τ α :=
  (stage.1, stage.2.withSource source)

/-- Two runs that end alike, in spite of their sources. -/
structure Run.Alike (a : Run σ) (b : Run τ) : Prop where
  result : a.result = b.result
  buffer : a.buffer = b.buffer
  events : a.events = b.events
  metrics : a.metrics = b.metrics

/-- Two sources know the same class for every step. -/
def KnowAlike [CodecSource σ] [CodecSource τ] (pipeline : FilterPipeline) (source : σ)
    (source' : τ) : Prop :=
  ∀ index step, pipeline.get? index = some step →
    ∃ c, CodecSource.codec source index step = some c ∧
      CodecSource.codec source' index step = some c

variable {options : Options} {index : Nat} {step : FilterStep} {c : FilterClass}
  {pipeline : FilterPipeline}

/-! ### Calling a codec -/

section Calls

variable (p : Progress σ) (source : τ)

theorem consult_withSource (id : FilterId) (seen : Bytes) (fault : FilterError) :
    consult options index id seen fault (p.withSource source) =
      withSource (consult options index id seen fault p) source := by
  unfold consult
  split
  · rfl
  next callback _ =>
  dsimp only
  cases callback id seen <;> rfl

theorem failedWrite_withSource :
    failedWrite options index step (p.withSource source) =
      withSource (failedWrite options index step p) source := by
  unfold failedWrite
  split
  · rfl
  dsimp only [Progress.withSource]
  split
  · rfl
  · exact consult_withSource ..

theorem callCodec_withSource :
    callCodec options index step c (p.withSource source) =
      withSource (callCodec options index step c p) source := by
  unfold callCodec
  split
  · rfl
  next words _ =>
  dsimp only [Progress.withSource]
  split
  · rfl
  · rfl
  next data _ =>
  have hfailed : ((p.withSource source).noteCall c (step.flags ||| options.callFlags)
      words).leave data p.buffer.nbytes =
        ((p.noteCall c (step.flags ||| options.callFlags) words).leave data
          p.buffer.nbytes).withSource source := rfl
  cases options.direction with
  | write => exact hfailed ▸ failedWrite_withSource ..
  | read => exact hfailed ▸ consult_withSource ..

theorem source_callCodec : (callCodec options index step c p).2.source = p.source :=
  congrArg (fun stage => stage.2.source) (callCodec_withSource p p.source)

end Calls

/-! ### Steps and runs -/

section Runs

variable [CodecSource σ] [CodecSource τ] {p : Progress σ} {source : σ} {source' : τ}

omit [CodecSource τ] in
theorem runStep_of_codec (hc : CodecSource.codec p.source index step = some c) :
    runStep options index step p =
      if p.mask.isSet index then (.ok (), p)
      else callCodec options index step c (p.note (.lookup index step.id)) := by
  rw [runStep]
  dsimp only
  rw [hc]

theorem runStep_withSource (hc : CodecSource.codec p.source index step = some c)
    (hc' : CodecSource.codec source' index step = some c) :
    runStep options index step (p.withSource source') =
      withSource (runStep options index step p) source' := by
  have hmask : (p.withSource source').mask = p.mask := rfl
  rw [runStep_of_codec hc, runStep_of_codec hc', hmask]
  split
  · rfl
  · exact callCodec_withSource (p.note (.lookup index step.id)) source'

omit [CodecSource τ] in
theorem source_runStep (hc : CodecSource.codec p.source index step = some c) :
    (runStep options index step p).2.source = p.source := by
  rw [runStep_of_codec hc]
  split
  · rfl
  · exact source_callCodec _

theorem runSteps_withSource {steps : List (FilterStep × Nat)}
    (h : ∀ x ∈ steps, ∃ c, CodecSource.codec p.source x.2 x.1 = some c ∧
      CodecSource.codec source' x.2 x.1 = some c) :
    runSteps options steps (p.withSource source') =
      withSource (runSteps options steps p) source' := by
  induction steps generalizing p with
  | nil => rfl
  | cons x rest ih =>
    obtain ⟨c, hc, hc'⟩ := h x List.mem_cons_self
    have hsource : (runStep options x.2 x.1 p).2.source = p.source := source_runStep hc
    rw [runSteps, runSteps, runStep_withSource hc hc']
    rcases hstep : runStep options x.2 x.1 p with ⟨_ | ⟨⟩, q⟩
    · rfl
    · rw [hstep] at hsource
      -- the rest is run with the source that the first step had
      refine ih fun y hy => ?_
      rw [hsource]
      exact h y (List.mem_cons_of_mem x hy)

theorem runSteps_of_knowAlike (h : KnowAlike pipeline source source') (options : Options)
    (buffer : ChunkBuffer) :
    runSteps options (ordered options.direction pipeline.steps)
        ⟨buffer, options.exclude, source', [], []⟩ =
      withSource (runSteps options (ordered options.direction pipeline.steps)
        ⟨buffer, options.exclude, source, [], []⟩) source' := by
  have hsteps : ∀ x ∈ ordered options.direction pipeline.steps,
      ∃ c, CodecSource.codec source x.2 x.1 = some c ∧
        CodecSource.codec source' x.2 x.1 = some c := fun x hx => h x.2 x.1 (mem_ordered_iff.1 hx)
  exact runSteps_withSource (p := ⟨buffer, options.exclude, source, [], []⟩) hsteps

/-- **Sources that know the same classes serve a run alike.** -/
theorem alike_run (h : KnowAlike pipeline source source') (options : Options)
    (buffer : ChunkBuffer) :
    (run pipeline options source buffer).Alike (run pipeline options source' buffer) := by
  unfold run
  split
  · exact ⟨rfl, rfl, rfl, rfl⟩
  split
  · exact ⟨rfl, rfl, rfl, rfl⟩
  rw [runSteps_of_knowAlike h]
  exact ⟨rfl, rfl, rfl, rfl⟩

omit [CodecSource τ] in
theorem source_run (h : KnowAlike pipeline source source) (options : Options)
    (buffer : ChunkBuffer) : (run pipeline options source buffer).source = source := by
  unfold run
  split
  · rfl
  split
  · rfl
  exact congrArg (fun stage => stage.2.source) (runSteps_of_knowAlike h options buffer)

end Runs

end FilteredChunks.Engine
