import FilteredChunks.Engine
import Mathlib.Tactic.Common

/-!
# What a step of a run can do

`Passes options index step p p'` lists the ways in which a step lets the run go on, each with all that
it changes; `Finds` says how the class of the step was found and `Forgives` how a codec's failure was
put up with.  `passes_of_runStep` is the inversion: a step that ends well went one of these ways.  The
equations after it are the other direction for a masked step and for a codec that applies.
-/

namespace FilteredChunks.Engine

variable {σ : Type}

/-- What a failure callback is shown, if the run gets that far. -/
def Options.seen? (options : Options) (b : ChunkBuffer) : Option Bytes :=
  match options.direction with
  | .write => b.valid?
  | .read => some b.data

theorem Options.callFlags_write {options : Options} (h : options.direction = .write)
    (flags : FilterFlags) : flags ||| options.callFlags = flags := by
  rw [Options.callFlags, h]
  exact congrArg FilterFlags.mk (BitVec.or_zero ..)

/-- The ways in which a run goes on after the codec of a step has failed. -/
inductive Forgives (options : Options) (index : Nat) (step : FilterStep) (p : Progress σ) :
    Progress σ → Prop
  | optional (hw : options.direction = .write) (ho : step.isOptional = true) :
      Forgives options index step p (p.skip index)
  /-- The callback said so; every byte of the buffer counts from now on. -/
  | rescued (callback : FilterId → Bytes → Verdict) (seen : Bytes)
      (hcallback : options.onFailure = some callback)
      (hseen : options.seen? p.buffer = some seen) (hgo : callback step.id seen = .continue)
      (hm : options.direction = .write → step.isOptional = false) :
      Forgives options index step p
        (((p.note (.callback step.id seen)).leave p.buffer.data p.buffer.size).skip index)

variable [CodecSource σ]

/-- How the class of a step was found, with the progress since. -/
inductive Finds (options : Options) (index : Nat) (step : FilterStep) (p : Progress σ) :
    FilterClass → Progress σ → Prop
  | known (c : FilterClass) (hc : CodecSource.codec p.source index step = some c) :
      Finds options index step p c (p.note (.lookup index step.id))
  | loaded (c : FilterClass) (hr : options.direction = .read)
      (hc : CodecSource.codec p.source index step = none)
      (hl : (CodecSource.load p.source step).result = .ok (some c)) :
      Finds options index step p c
        { (p.note (.lookup index step.id)).note (.load step.id) with
          source := (CodecSource.load p.source step).source
          metrics := p.metrics ++ (CodecSource.load p.source step).metrics }

/-- The ways in which a step lets the run go on. -/
inductive Passes (options : Options) (index : Nat) (step : FilterStep) (p : Progress σ) :
    Progress σ → Prop
  | masked (hm : p.mask.isSet index = true) : Passes options index step p p
  /-- An optional step without a codec, on write. -/
  | absent (hm : p.mask.isSet index = false) (hw : options.direction = .write)
      (hc : CodecSource.codec p.source index step = none) (ho : step.isOptional = true) :
      Passes options index step p ((p.note (.lookup index step.id)).skip index)
  | applied (hm : p.mask.isSet index = false) (c : FilterClass) (q : Progress σ)
      (hc : Finds options index step p c q) (n : Nat) (data : Bytes)
      (ht : c.codec.transform (step.flags ||| options.callFlags) step.words p.buffer.nbytes
        p.buffer.data = .produced (n + 1) data) (hread : step.IsReadable) :
      Passes options index step p
        ((q.noteCall c (step.flags ||| options.callFlags) step.words).leave data (n + 1))
  | forgiven (hm : p.mask.isSet index = false) (c : FilterClass) (q p' : Progress σ)
      (hc : Finds options index step p c q) (data : Bytes)
      (ht : c.codec.transform (step.flags ||| options.callFlags) step.words p.buffer.nbytes
        p.buffer.data = .produced 0 data)
      (hf : Forgives options index step
        ((q.noteCall c (step.flags ||| options.callFlags) step.words).leave data p.buffer.nbytes)
        p') (hread : step.IsReadable) :
      Passes options index step p p'

/-! ### Inversion -/

omit [CodecSource σ] in
theorem forgives_of_consult {options : Options} {index : Nat} {step : FilterStep} {seen : Bytes}
    {fault : FilterError} {p p' : Progress σ} (hseen : options.seen? p.buffer = some seen)
    (hm : options.direction = .write → step.isOptional = false)
    (h : consult options index step.id seen fault p = (.ok (), p')) :
    Forgives options index step p p' := by
  unfold consult at h
  split at h
  · cases h
  next callback hcallback =>
  dsimp only at h
  split at h
  · cases h
  next hgo =>
  cases h
  exact .rescued callback seen hcallback hseen hgo hm

omit [CodecSource σ] in
theorem forgives_of_failedWrite {options : Options} {index : Nat} {step : FilterStep}
    {p p' : Progress σ} (hw : options.direction = .write)
    (h : failedWrite options index step p = (.ok (), p')) : Forgives options index step p p' := by
  unfold failedWrite at h
  split at h
  · next ho =>
    cases h
    exact .optional hw ho
  next ho =>
  dsimp only at h
  split at h
  · cases h
  next hsees =>
  -- without a callback nothing is seen, and the step cannot pass
  cases hcallback : options.onFailure with
  | none =>
    rw [consult, hcallback] at h
    cases h
  | some callback =>
    obtain ⟨seen, hseen⟩ : ∃ seen, p.buffer.valid? = some seen := by
      cases hv : p.buffer.valid? with
      | none => exact absurd hv (hsees callback hcallback)
      | some seen => exact ⟨seen, rfl⟩
    rw [hseen] at h
    exact forgives_of_consult (by rw [Options.seen?, hw]; exact hseen)
      (fun _ => by simpa using ho) h

omit [CodecSource σ] in
theorem forgives_of_failedRead {options : Options} {index : Nat} {step : FilterStep}
    {p p' : Progress σ} (hr : options.direction = .read)
    (h : failedRead options index step p = (.ok (), p')) : Forgives options index step p p' :=
  forgives_of_consult (by rw [Options.seen?, hr]) (fun hw => by rw [hr] at hw; cases hw) h

omit [CodecSource σ] in
theorem callCodec_eq_ok {options : Options} {index : Nat} {step : FilterStep} {c : FilterClass}
    {p p' : Progress σ} (h : callCodec options index step c p = (.ok (), p')) :
    step.IsReadable ∧
    ((∃ n data, c.codec.transform (step.flags ||| options.callFlags) step.words p.buffer.nbytes
        p.buffer.data = .produced (n + 1) data ∧
      p' = (p.noteCall c (step.flags ||| options.callFlags) step.words).leave data (n + 1)) ∨
    ∃ data, c.codec.transform (step.flags ||| options.callFlags) step.words p.buffer.nbytes
        p.buffer.data = .produced 0 data ∧
      Forgives options index step
        ((p.noteCall c (step.flags ||| options.callFlags) step.words).leave data p.buffer.nbytes)
        p') := by
  unfold callCodec at h
  split at h
  · cases h
  next words hwords =>
  obtain rfl := FilterStep.words_eq hwords
  refine ⟨FilterStep.isReadable_of_words? hwords, ?_⟩
  dsimp only at h
  split at h
  · cases h
  · next n data ht =>
    cases h
    exact .inl ⟨n, data, ht, rfl⟩
  next data ht =>
  refine .inr ⟨data, ht, ?_⟩
  split at h
  · next hw => exact forgives_of_failedWrite hw h
  · next hr => exact forgives_of_failedRead hr h

theorem passes_of_callCodec {options : Options} {index : Nat} {step : FilterStep} {c : FilterClass}
    {p q p' : Progress σ} (hm : p.mask.isSet index = false) (hc : Finds options index step p c q)
    (h : callCodec options index step c q = (.ok (), p')) : Passes options index step p p' := by
  have hbuffer : q.buffer = p.buffer := by cases hc <;> rfl
  obtain ⟨hread, ⟨n, data, ht, rfl⟩ | ⟨data, ht, hf⟩⟩ := callCodec_eq_ok h
  · rw [hbuffer] at ht
    exact .applied hm c q hc n data ht hread
  · rw [hbuffer] at ht hf
    exact .forgiven hm c q p' hc data ht hf hread

/-- **Inversion of a step**: one that lets the run go on went one of the ways of `Passes`. -/
theorem passes_of_runStep {options : Options} {index : Nat} {step : FilterStep}
    {p p' : Progress σ} (h : runStep options index step p = (.ok (), p')) :
    Passes options index step p p' := by
  unfold runStep at h
  split at h
  · next hm =>
    cases h
    exact .masked hm
  next hm =>
  rw [Bool.not_eq_true] at hm
  dsimp only at h
  split at h
  · next c hc => exact passes_of_callCodec hm (.known c hc) h
  next hc =>
  unfold missingCodec at h
  split at h
  · next hw =>
    split at h
    · next ho =>
      cases h
      exact .absent hm hw hc ho
    · cases h
  next hr =>
  dsimp only at h
  split at h
  · cases h
  · cases h
  · next c hl => exact passes_of_callCodec hm (.loaded c hr hc hl) h

/-! ### Equations -/

theorem runStep_masked {options : Options} {index : Nat} {step : FilterStep} {p : Progress σ}
    (hm : p.mask.isSet index = true) : runStep options index step p = (.ok (), p) := by
  rw [runStep, if_pos hm]

theorem runStep_applied {options : Options} {index : Nat} {step : FilterStep} {p : Progress σ}
    {c : FilterClass} {n : Nat} {data : Bytes} (hm : p.mask.isSet index = false)
    (hc : CodecSource.codec p.source index step = some c) (hread : step.IsReadable)
    (ht : c.codec.transform (step.flags ||| options.callFlags) step.words p.buffer.nbytes
      p.buffer.data = .produced (n + 1) data) :
    runStep options index step p =
      (.ok (), ((p.note (.lookup index step.id)).noteCall c (step.flags ||| options.callFlags)
        step.words).leave data (n + 1)) := by
  rw [runStep, if_neg (by simp [hm])]
  dsimp only
  rw [hc]
  dsimp only
  rw [callCodec, hread.words?_eq]
  dsimp only [Progress.note]
  rw [ht]

theorem run_eq {pipeline : FilterPipeline} {options : Options} {source : σ} {buffer : ChunkBuffer}
    {result : Except Fault Unit} {p : Progress σ} (hp : pipeline.isEmpty = false)
    (hn : buffer.nbytes ≠ 0) (hd : buffer.data ≠ [])
    (h : runSteps options (ordered options.direction pipeline.steps)
      ⟨buffer, options.exclude, source, [], []⟩ = (result, p)) :
    run pipeline options source buffer =
      { result := result.map fun () => ⟨p.buffer.nbytes, p.mask⟩
        buffer := p.buffer
        source := p.source
        events := p.events
        metrics := p.metrics ++ runMetrics options.direction buffer.nbytes p.buffer.nbytes result } := by
  rw [run, if_neg (by simp [hp]), if_neg (by simp [hn, hd]), h]

theorem exists_runSteps_of_run {pipeline : FilterPipeline} {options : Options} {source : σ}
    {buffer : ChunkBuffer} {outcome : Outcome} (hp : pipeline.isEmpty = false)
    (h : (run pipeline options source buffer).result = .ok outcome) :
    buffer.nbytes ≠ 0 ∧ buffer.data ≠ [] ∧
      ∃ p, runSteps options (ordered options.direction pipeline.steps)
          ⟨buffer, options.exclude, source, [], []⟩ = (.ok (), p) ∧
        outcome.mask = p.mask ∧ (run pipeline options source buffer).buffer = p.buffer := by
  unfold run at *
  rw [if_neg (by simp [hp])] at *
  split at h
  · cases h
  next hbytes =>
  rw [if_neg hbytes]
  rw [not_or] at hbytes
  rcases hsteps : runSteps options (ordered options.direction pipeline.steps)
    ⟨buffer, options.exclude, source, [], []⟩ with ⟨fault | ⟨⟩, p⟩
  · rw [hsteps] at h
    cases h
  · rw [hsteps] at h
    cases h
    exact ⟨hbytes.1, hbytes.2, p, rfl, rfl, rfl⟩

theorem nbytes_of_run {pipeline : FilterPipeline} {options : Options} {source : σ}
    {buffer : ChunkBuffer} {outcome : Outcome}
    (h : (run pipeline options source buffer).result = .ok outcome) :
    outcome.nbytes = (run pipeline options source buffer).buffer.nbytes := by
  unfold run at *
  split at h
  · next hempty =>
    cases h
    rw [if_pos hempty]
  · next hempty =>
    split at h
    · cases h
    · next hbytes =>
      rw [if_neg hempty, if_neg hbytes]
      rcases hsteps : runSteps options (ordered options.direction pipeline.steps)
        ⟨buffer, options.exclude, source, [], []⟩ with ⟨result, p⟩
      rw [hsteps] at h
      cases result with
      | ok _ =>
        cases h
        rfl
      | error fault => cases h

end FilteredChunks.Engine
