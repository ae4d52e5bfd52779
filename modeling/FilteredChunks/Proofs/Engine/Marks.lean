import FilteredChunks.Proofs.Engine.Course
import FilteredChunks.Proofs.Engine.RoundTrip

/-!
# What a mark means

On write a step is marked if it is optional and there is no class for it, or if its codec failed and that
was put up with.  With a source that knows the class of every step (`Knows`) the first does not happen:
a run fails only because of a codec (`fault_of_run_write`), and every mark that was not there at the
start is that of a codec that was called, and reported no bytes (`calledInVain_of_isSet`).
-/

namespace FilteredChunks.Engine

variable {σ : Type} [CodecSource σ]

/-- A source knows the class of every step. -/
def Knows (pipeline : FilterPipeline) (source : σ) : Prop :=
  ∀ index step, pipeline.get? index = some step →
    ∃ c, CodecSource.codec source index step = some c

/-- In a run the codec of a step was called on what the steps before it had left, and reported no
bytes. -/
def CalledInVain (pipeline : FilterPipeline) (options : Options) (source : σ) (buffer : ChunkBuffer)
    (index : Nat) (step : FilterStep) (c : FilterClass) : Prop :=
  ∃ before after p left, ordered options.direction pipeline.steps = before ++ (step, index) :: after ∧
    runSteps options before ⟨buffer, options.exclude, source, [], []⟩ = (.ok (), p) ∧
    c.codec.transform step.flags step.words p.buffer.nbytes p.buffer.data = .produced 0 left ∧
    p.events ++ [.lookup index step.id,
      .call c.origin c.id step.flags step.words p.buffer.nbytes p.buffer.size] <+:
        (run pipeline options source buffer).events

variable {pipeline : FilterPipeline} {options : Options} {source : σ} {buffer : ChunkBuffer}
  {index : Nat} {step : FilterStep} {p p' : Progress σ}

theorem fault_of_stops_write (hw : options.direction = .write) {c : FilterClass}
    (hc : CodecSource.codec p.source index step = some c) {fault : Fault}
    (h : Stops options index step p fault p') :
    fault = .crash ∨ fault = .failure (.writeFailed step.id .returnedFailure) := by
  have hfailure : options.failureOf step = .writeFailed step.id .returnedFailure := by
    rw [Options.failureOf, hw]
  cases h with
  | unregistered _ _ hnone =>
    rw [hc] at hnone
    cases hnone
  | unloaded _ hr =>
    rw [hw] at hr
    cases hr
  | unreadable => exact .inl rfl
  | crashed => exact .inl rfl
  | condemned _ _ _ _ _ _ _ _ hf =>
    cases hf with
    | unasked => exact .inr (by rw [hfailure])
    | refused => exact .inr (by rw [hfailure])
    | unseen => exact .inl rfl

theorem call_of_passes_write (hw : options.direction = .write) {c : FilterClass}
    (hc : CodecSource.codec p.source index step = some c) (hp : p.mask.isSet index = false)
    (hp' : p'.mask.isSet index = true) (h : Passes options index step p p') :
    ∃ left, c.codec.transform step.flags step.words p.buffer.nbytes p.buffer.data =
        .produced 0 left ∧
      p.events ++ [.lookup index step.id,
        .call c.origin c.id step.flags step.words p.buffer.nbytes p.buffer.size] <+: p'.events := by
  have known {c' q} (hf : Finds options index step p c' q) :
      c' = c ∧ q = p.note (.lookup index step.id) := by
    cases hf with
    | known hc' => exact ⟨Option.some.inj (hc'.symm.trans hc), rfl⟩
    | loaded _ hnone =>
      rw [hc] at hnone
      cases hnone
  cases h with
  | masked hm =>
    rw [hp] at hm
    cases hm
  | absent _ _ hnone =>
    rw [hc] at hnone
    cases hnone
  | applied _ c' q hf =>
    have hmask := hf.mask_eq
    rw [← hmask] at hp
    exact absurd (hp'.symm.trans hp) (by simp)
  | forgiven _ c' q p' hf left ht hforgiven =>
    obtain ⟨rfl, rfl⟩ := known hf
    rw [Options.callFlags_write hw] at ht hforgiven
    refine ⟨left, ht, ?_⟩
    cases hforgiven with
    | optional => simp [Progress.skip, Progress.leave, Progress.noteCall, Progress.note]
    | rescued => simp [Progress.skip, Progress.leave, Progress.noteCall, Progress.note]

/-- **A write with every class known fails only because of a codec**, or for want of bytes. -/
theorem fault_of_run_write (hw : options.direction = .write) (hknows : Knows pipeline source)
    {fault : Fault} (h : (run pipeline options source buffer).result = .error fault) :
    fault = .crash ∨ fault = .failure (.invalidArgument .emptyBuffer) ∨
      ∃ step ∈ pipeline.steps, fault = .failure (.writeFailed step.id .returnedFailure) := by
  unfold run at h
  split at h
  · cases h
  split at h
  · cases h
    exact .inr (.inl rfl)
  rcases hsteps : runSteps options (ordered options.direction pipeline.steps)
    ⟨buffer, options.exclude, source, [], []⟩ with ⟨_ | ⟨⟩, p⟩
  · rw [hsteps] at h
    cases h
    obtain ⟨before, x, after, q, hall, hbefore, hstops⟩ := exists_stops hsteps
    have hx : pipeline.steps[x.2]? = some x.1 :=
      mem_ordered_iff.1 (hall ▸ List.mem_append_right _ List.mem_cons_self)
    obtain ⟨c, hc⟩ := hknows x.2 x.1 hx
    have hsource : q.source = source := source_of_runSteps_write hw hbefore
    rcases fault_of_stops_write hw (by rw [hsource]; exact hc) hstops with hfault | hfault
    · exact .inl hfault
    · exact .inr (.inr ⟨x.1, List.mem_of_getElem? hx, hfault⟩)
  · rw [hsteps] at h
    cases h

/-- **Every mark that a write with every class known has set is that of a codec that failed.** -/
theorem calledInVain_of_isSet (hw : options.direction = .write) (hknows : Knows pipeline source)
    {outcome : Outcome} (h : (run pipeline options source buffer).result = .ok outcome)
    (hset : outcome.mask.isSet index = true) (hexclude : options.exclude.isSet index = false) :
    ∃ step c, pipeline.get? index = some step ∧ CodecSource.codec source index step = some c ∧
      CalledInVain pipeline options source buffer index step c := by
  by_cases hempty : pipeline.isEmpty = true
  · rw [run, if_pos hempty] at h
    cases h
    exact absurd (hexclude.symm.trans hset) (by simp)
  by_cases hbytes : buffer.nbytes = 0 ∨ buffer.data = []
  · rw [run, if_neg hempty, if_pos hbytes] at h
    cases h
  rw [not_or] at hbytes
  rw [Bool.not_eq_true] at hempty
  rcases hsteps : runSteps options (ordered options.direction pipeline.steps)
    ⟨buffer, options.exclude, source, [], []⟩ with ⟨_ | ⟨⟩, last⟩
  · rw [run_eq hempty hbytes.1 hbytes.2 hsteps] at h
    cases h
  have hrun := run_eq hempty hbytes.1 hbytes.2 hsteps
  rw [hrun] at h
  cases h
  -- a mark is that of a step
  obtain ⟨x, hx, rfl⟩ : ∃ x ∈ ordered options.direction pipeline.steps, x.2 = index := by
    by_contra hno
    have hsame := isSet_of_runSteps hsteps (j := index) (by simpa using hno)
    exact absurd (hexclude.symm.trans (hsame.symm.trans hset)) (by simp)
  obtain ⟨before, after, hsplit⟩ := List.append_of_mem hx
  obtain ⟨hfresh, honce⟩ := notMem_of_ordered hsplit
  rw [hsplit] at hsteps
  obtain ⟨q, q', hbefore, hat, hafter⟩ := exists_runStep hsteps
  obtain ⟨c, hc⟩ := hknows x.2 x.1 (mem_ordered_iff.1 hx)
  have hq : q.mask.isSet x.2 = false := (isSet_of_runSteps hbefore hfresh).trans hexclude
  have hq' : q'.mask.isSet x.2 = true := (isSet_of_runSteps hafter honce).symm.trans hset
  have hsource : q.source = source := source_of_runSteps_write hw hbefore
  obtain ⟨left, ht, hcall⟩ := call_of_passes_write hw (by rw [hsource]; exact hc) hq hq'
    (passes_of_runStep hat)
  refine ⟨x.1, c, mem_ordered_iff.1 hx, hc, before, after, q, left, hsplit, hbefore, ht, ?_⟩
  rw [hrun]
  exact hcall.trans (events_of_runSteps hafter)

end FilteredChunks.Engine
