import FilteredChunks.Proofs.Engine.RoundTrip
import FilteredChunks.Proofs.Registry.Table
import Mathlib.Data.List.Induction

/-!
# A tolerated failure is an exclusion

A run that goes on after a failure marks the step in the mask.  Running the same pipeline with this mask
excluded, and with nobody to ask, must then do the same to the buffer.  The two runs go in lockstep: what
was masked or marked in the first run is masked in the second one, and what applied in the first run is
not masked in the end, so that it applies in the second one too.

This needs two things.  A codec that fails leaves the buffer alone (`Codec.FailsCleanly`).  And when the
callback was asked, every byte of the buffer counted (`AskedWithoutSlack`): if the callback lets a run go
on, all of the buffer counts from then on, where a masked step leaves the count as it was.
-/

namespace FilteredChunks

/-- A codec that leaves the buffer alone when it fails. -/
def Codec.FailsCleanly (c : Codec) : Prop :=
  ∀ (flags : FilterFlags) (words : List UInt32) (nbytes : Nat) (data left : Bytes),
    c.transform flags words nbytes data = .produced 0 left → left = data

namespace Engine

/-- If the second of two events is that the callback is asked about the call that is the first, every
byte of the buffer counted then. -/
def fullWhenAsked : Event × Event → Bool
  | (.call _ _ _ _ nbytes size, .callback _ _) => nbytes == size
  | _ => true

/-- Whenever the callback was asked, every byte of the buffer counted. -/
def AskedWithoutSlack (events : List Event) : Prop :=
  ∀ e ∈ events.zip events.tail, fullWhenAsked e = true

instance (events : List Event) : Decidable (AskedWithoutSlack events) :=
  inferInstanceAs (Decidable (∀ e ∈ events.zip events.tail, fullWhenAsked e = true))

/-- The same run with the steps of a mask left out and without a callback. -/
def Options.excluding (options : Options) (mask : FilterMask) : Options :=
  { options with exclude := mask, onFailure := none }

variable {σ : Type} [CodecSource σ]

/-- Wherever both of two runs come to a step, their sources have the same class for it. -/
def AnswersAlike (pipeline : FilterPipeline) (options options' : Options) (source source' : σ)
    (buffer : ChunkBuffer) : Prop :=
  ∀ before x after p p', ordered options.direction pipeline.steps = before ++ x :: after →
    runSteps options before ⟨buffer, options.exclude, source, [], []⟩ = (.ok (), p) →
    runSteps options' before ⟨buffer, options'.exclude, source', [], []⟩ = (.ok (), p') →
    classFor options.direction p.source x.2 x.1 = classFor options.direction p'.source x.2 x.1

variable {options : Options} {source source' : σ} {x : FilterStep × Nat} {p q p' : Progress σ}

/-! ### Lockstep -/

theorem mem_zip_tail {α : Type} (before : List α) (a b : α) (after : List α) :
    (a, b) ∈ (before ++ a :: b :: after).zip (before ++ a :: b :: after).tail := by
  refine List.mem_of_getElem? (i := before.length) ?_
  rw [List.getElem?_zip_eq_some, List.getElem?_tail]
  simp

omit [CodecSource σ] in
theorem isSet_skip (p : Progress σ) {index : Nat} (h : index < 32) :
    (p.skip index).mask.isSet index = true := by
  rw [Progress.skip, FilterMask.isSet_set]
  simp [h]

omit [CodecSource σ] in
/-- If nothing but what counts was in the buffer, the run goes on with the buffer that it had. -/
theorem Forgives.buffer_eq (h : Forgives options x.2 x.1 p p')
    (hfull : (∃ seen, p'.events = p.events ++ [.callback x.1.id seen]) →
      p.buffer.nbytes = p.buffer.size) : p'.buffer = p.buffer := by
  cases h with
  | optional => rfl
  | rescued callback seen =>
    have hsize := hfull ⟨seen, rfl⟩
    show ChunkBuffer.mk p.buffer.data p.buffer.size = p.buffer
    rw [← hsize]

omit [CodecSource σ] in
theorem Forgives.isSet (h : Forgives options x.2 x.1 p p') (hx : x.2 < 32) :
    p'.mask.isSet x.2 = true := by
  cases h with
  | optional => exact isSet_skip _ hx
  | rescued => exact isSet_skip _ hx

/-- **One step of both runs.**  The second run is where the first one is, and excludes what the first one
has marked when it ends. -/
theorem exists_runStep_excluding {last : Progress σ} {rest : List (FilterStep × Nat)}
    (hx : x.2 < 32) (honce : x.2 ∉ rest.map Prod.snd)
    (hcodecs : ∀ c q, Finds options x.2 x.1 p c q → c.codec.FailsCleanly)
    (hpasses : Passes options x.2 x.1 p q) (hrest : runSteps options rest q = (.ok (), last))
    (hslack : AskedWithoutSlack last.events)
    (hsame : classFor options.direction p.source x.2 x.1 =
      classFor options.direction p'.source x.2 x.1)
    (hbuffer : p'.buffer = p.buffer) (hmask : p'.mask = last.mask) :
    ∃ q', runStep (options.excluding last.mask) x.2 x.1 p' = (.ok (), q') ∧ q'.buffer = q.buffer ∧
      q'.mask = last.mask := by
  have masked (hset : q.mask.isSet x.2 = true) (hkept : q.buffer = p.buffer) :
      ∃ q', runStep (options.excluding last.mask) x.2 x.1 p' = (.ok (), q') ∧
        q'.buffer = q.buffer ∧ q'.mask = last.mask := by
    have hlast : p'.mask.isSet x.2 = true := hmask ▸ isSet_of_runSteps_of_isSet hrest hset
    exact ⟨p', runStep_masked hlast, hbuffer.trans hkept.symm, hmask⟩
  cases hpasses with
  | masked hm => exact masked hm rfl
  | absent => exact masked (isSet_skip _ hx) rfl
  | applied hm c q₁ hc n data ht hread =>
    -- no later step marks this one
    have hunset : p'.mask.isSet x.2 = false := by
      rw [hmask, isSet_of_runSteps hrest honce]
      show q₁.mask.isSet x.2 = false
      rw [hc.mask_eq, hm]
    obtain ⟨q', hq'⟩ : ∃ q', Finds (options.excluding last.mask) x.2 x.1 p' c q' :=
      classFor_eq_some_iff.1 (hsame.symm.trans (classFor_eq_some_iff.2 ⟨q₁, hc⟩))
    rw [← hbuffer, ← hq'.buffer_eq] at ht
    exact ⟨_, (runStep_of_finds hunset hq').trans (callCodec_of_produced hread ht), rfl,
      hq'.mask_eq.trans hmask⟩
  | forgiven hm c q₁ q hc data ht hf =>
    obtain rfl := hcodecs c q₁ hc _ _ _ _ _ ht
    refine masked (hf.isSet hx) (hf.buffer_eq ?_)
    rintro ⟨seen, hseen⟩
    obtain ⟨after, hafter⟩ := events_of_runSteps hrest
    rw [hseen] at hafter
    have hasked : last.events = q₁.events ++ .call c.origin c.id (x.1.flags ||| options.callFlags)
        x.1.words p.buffer.nbytes p.buffer.size :: .callback x.1.id seen :: after := by
      rw [← hafter]
      simp [Progress.leave, Progress.noteCall, Progress.note, hc.buffer_eq]
    rw [hasked] at hslack
    exact beq_iff_eq.1 (hslack _ (mem_zip_tail ..))

/-- The steps of the second run, as far as the first one has come. -/
theorem exists_runSteps_excluding {pipeline : FilterPipeline}
    (hlength : pipeline.steps.length ≤ 32) {buffer : ChunkBuffer} {last : Progress σ}
    (hcodecs : ∀ c, Uses options.direction pipeline source c → c.codec.FailsCleanly)
    (h : runSteps options (ordered options.direction pipeline.steps)
      ⟨buffer, options.exclude, source, [], []⟩ = (.ok (), last))
    (hslack : AskedWithoutSlack last.events)
    (hsame : AnswersAlike pipeline options (options.excluding last.mask) source source' buffer)
    {before after : List (FilterStep × Nat)}
    (hsteps : ordered options.direction pipeline.steps = before ++ after) :
    ∃ p p', runSteps options before ⟨buffer, options.exclude, source, [], []⟩ = (.ok (), p) ∧
      runSteps options after p = (.ok (), last) ∧
      runSteps (options.excluding last.mask) before ⟨buffer, last.mask, source', [], []⟩ =
        (.ok (), p') ∧
      p'.buffer = p.buffer ∧ p'.mask = last.mask := by
  induction before using List.reverseRecOn generalizing after with
  | nil =>
    rw [hsteps, List.nil_append] at h
    exact ⟨_, _, rfl, h, rfl, rfl, rfl⟩
  | append_singleton before x ih =>
    rw [List.append_assoc, List.singleton_append] at hsteps
    obtain ⟨p, p', hp, hafter, hp', hbuffer, hmask⟩ := ih hsteps
    obtain ⟨q, hstep, hrest⟩ : ∃ q, runStep options x.2 x.1 p = (.ok (), q) ∧
        runSteps options after q = (.ok (), last) := by
      rw [runSteps] at hafter
      split at hafter
      · next q hstep => exact ⟨q, hstep, hafter⟩
      · cases hafter
    have hx : x ∈ ordered options.direction pipeline.steps :=
      hsteps ▸ List.mem_append_right _ List.mem_cons_self
    have hindex : x.2 < 32 :=
      Nat.lt_of_lt_of_le (List.getElem?_eq_some_iff.1 (mem_ordered_iff.1 hx)).1 hlength
    have honce : x.2 ∉ after.map Prod.snd := (notMem_of_ordered hsteps).2
    have hfound : ∀ c q, Finds options x.2 x.1 p c q → c.codec.FailsCleanly :=
      fun c q hc => hcodecs c (hc.uses hx (fills_of_runSteps hp .refl))
    obtain ⟨q', hq', hsame', hmask'⟩ := exists_runStep_excluding hindex honce hfound
      (passes_of_runStep hstep) hrest hslack (hsame before x after p p' hsteps hp hp') hbuffer hmask
    exact ⟨q, q', runSteps_concat hp hstep, hrest, runSteps_concat hp' hq', hsame', hmask'⟩

/-! ### Sources that answer alike -/

/-- A source that gives each step the class that it gives it at first, whatever it loads for a run. -/
def Steady (source : σ) : Prop :=
  ∀ s, CodecSource.Fills source s → ∀ index step,
    classFor .read s index step = classFor .read source index step

theorem answersAlike_of_steady (h : Steady source) (pipeline : FilterPipeline) (options : Options)
    (mask : FilterMask) (buffer : ChunkBuffer) :
    AnswersAlike pipeline options (options.excluding mask) source source buffer := by
  intro before x after p p' _ hp hp'
  cases hd : options.direction with
  | write => rw [source_of_runSteps_write hd hp, source_of_runSteps_write (by exact hd) hp']
  | read => rw [h p.source (fills_of_runSteps hp .refl), h p'.source (fills_of_runSteps hp' .refl)]

theorem steady_registry (r : FilterRegistry) : Steady r := by
  intro s hs index step
  induction hs with
  | refl => rfl
  | @load s _ index' step' habsent ih =>
    rw [← ih]
    exact FilterRegistry.classFor_loadPlugin habsent index step

/-! ### Main statement -/

/-- **A tolerated failure is an exclusion.**  If codecs that fail leave the buffer alone, and every byte
of it counted when the callback was asked, then a run that succeeded succeeds again, with the same count
and the same mask and the same buffer, when the steps that it marked are left out and there is no
callback. -/
theorem run_excluding {pipeline : FilterPipeline}
    (hlength : pipeline.length ≤ FilterPipeline.maxSteps) {buffer : ChunkBuffer} {outcome : Outcome}
    (hcodecs : ∀ c, Uses options.direction pipeline source c → c.codec.FailsCleanly)
    (h : (run pipeline options source buffer).result = .ok outcome)
    (hslack : AskedWithoutSlack (run pipeline options source buffer).events)
    (hsame : AnswersAlike pipeline options (options.excluding outcome.mask) source source' buffer) :
    (run pipeline (options.excluding outcome.mask) source' buffer).result = .ok outcome ∧
    (run pipeline (options.excluding outcome.mask) source' buffer).buffer =
      (run pipeline options source buffer).buffer := by
  by_cases hempty : pipeline.isEmpty = true
  · rw [run, if_pos hempty] at h ⊢
    cases h
    rw [run, if_pos hempty]
    exact ⟨rfl, rfl⟩
  by_cases hbytes : buffer.nbytes = 0 ∨ buffer.data = []
  · rw [run, if_neg hempty, if_pos hbytes] at h
    cases h
  rw [not_or] at hbytes
  rw [Bool.not_eq_true] at hempty
  rcases hsteps : runSteps options (ordered options.direction pipeline.steps)
    ⟨buffer, options.exclude, source, [], []⟩ with ⟨_ | ⟨⟩, last⟩
  · rw [run_eq hempty hbytes.1 hbytes.2 hsteps] at h
    cases h
  rw [run_eq hempty hbytes.1 hbytes.2 hsteps] at h hslack ⊢
  cases h
  obtain ⟨p, p', hp, -, hp', hbuffer, hmask⟩ := exists_runSteps_excluding hlength hcodecs hsteps
    hslack hsame (List.append_nil _).symm
  obtain rfl : last = p := (Prod.mk.inj (hsteps.symm.trans hp)).2
  rw [run_eq hempty hbytes.1 hbytes.2 hp', hbuffer, hmask]
  exact ⟨rfl, rfl⟩

/-! ### A run with every kind of failure -/

/-- A step that applies, an optional one without a codec, an optional one whose codec fails, and a
mandatory one whose codec fails. -/
def toleratedSteps : List FilterStep :=
  [.ofWords 300 .mandatory [], .ofWords 301 .optional [], .ofWords 302 .optional [],
    .ofWords 303 .mandatory []]

/-- A registry with three of their classes. -/
def toleratedRegistry : FilterRegistry where
  classes :=
    [.ofCodec 300 "append" (.ofSample (.appending 7) .always .keep) (.application 0),
      .ofCodec 302 "fail" (.ofSample .failing .always .keep) (.application 1),
      .ofCodec 303 "fail" (.ofSample .failing .always .keep) (.application 2)]
  slots := 32
  loader := none
  collectiveCheck := false

/-- The callback lets every run go on. -/
def tolerating : Options := ⟨.write, .empty, true, some fun _ _ => .continue⟩

theorem failsCleanly_appending (byte : UInt8) :
    (Codec.ofSample (.appending byte) .always .keep).FailsCleanly := by
  intro flags words nbytes data left h
  simp only [Codec.ofSample, SampleCodec.transform, SampleCodec.whole] at h
  split at h
  · exact (Reply.produced.inj h).2.symm
  · have hcount := (Reply.produced.inj h).1
    simp at hcount

theorem failsCleanly_of_uses_tolerated {direction : Direction} {pipeline : FilterPipeline}
    {c : FilterClass} (h : Uses direction pipeline toleratedRegistry c) : c.codec.FailsCleanly := by
  intro flags words nbytes data left htransform
  rcases FilterRegistry.provides h.provides with hc | ⟨loader, id, hnone, -⟩
  · simp only [toleratedRegistry, List.mem_cons, List.not_mem_nil, or_false] at hc
    rcases hc with rfl | rfl | rfl
    · exact failsCleanly_appending 7 flags words nbytes data left htransform
    · exact (Reply.produced.inj htransform).2.symm
    · exact (Reply.produced.inj htransform).2.symm
  · cases hnone

theorem run_excluding_tolerated :
    (⟨toleratedSteps, 32⟩ : FilterPipeline).length ≤ FilterPipeline.maxSteps ∧
    (∀ c, Uses tolerating.direction ⟨toleratedSteps, 32⟩ toleratedRegistry c →
      c.codec.FailsCleanly) ∧
    (run ⟨toleratedSteps, 32⟩ tolerating toleratedRegistry (.ofBytes [1, 2, 3])).result =
      .ok ⟨4, ⟨14⟩⟩ ∧
    AskedWithoutSlack
      (run ⟨toleratedSteps, 32⟩ tolerating toleratedRegistry (.ofBytes [1, 2, 3])).events ∧
    AnswersAlike ⟨toleratedSteps, 32⟩ tolerating (tolerating.excluding ⟨14⟩) toleratedRegistry
      toleratedRegistry (.ofBytes [1, 2, 3]) ∧
    (run ⟨toleratedSteps, 32⟩ (tolerating.excluding ⟨14⟩) toleratedRegistry
      (.ofBytes [1, 2, 3])).result = .ok ⟨4, ⟨14⟩⟩ ∧
    (run ⟨toleratedSteps, 32⟩ (tolerating.excluding ⟨14⟩) toleratedRegistry
        (.ofBytes [1, 2, 3])).buffer =
      (run ⟨toleratedSteps, 32⟩ tolerating toleratedRegistry (.ofBytes [1, 2, 3])).buffer := by
  have hresult : (run ⟨toleratedSteps, 32⟩ tolerating toleratedRegistry
      (.ofBytes [1, 2, 3])).result = .ok ⟨4, ⟨14⟩⟩ := by rfl
  have hslack : AskedWithoutSlack
      (run ⟨toleratedSteps, 32⟩ tolerating toleratedRegistry (.ofBytes [1, 2, 3])).events := by decide
  have hsame := answersAlike_of_steady (steady_registry toleratedRegistry) ⟨toleratedSteps, 32⟩
    tolerating ⟨14⟩ (.ofBytes [1, 2, 3])
  exact ⟨by decide, fun c hc => failsCleanly_of_uses_tolerated hc, hresult, hslack, hsame,
    run_excluding (by decide) (fun c hc => failsCleanly_of_uses_tolerated hc) hresult hslack hsame⟩

/-- With a byte that does not count, the run that the callback lets go on counts it and the other one
does not. -/
theorem nbytes_excluding_slack :
    (∀ c, Uses tolerating.direction ⟨[.ofWords 303 .mandatory []], 32⟩ toleratedRegistry c →
      c.codec.FailsCleanly) ∧
    AnswersAlike ⟨[.ofWords 303 .mandatory []], 32⟩ tolerating (tolerating.excluding ⟨1⟩)
      toleratedRegistry toleratedRegistry (.withValid [1, 2, 3] 2) ∧
    (run ⟨[.ofWords 303 .mandatory []], 32⟩ tolerating toleratedRegistry
      (.withValid [1, 2, 3] 2)).result = .ok ⟨3, ⟨1⟩⟩ ∧
    (run ⟨[.ofWords 303 .mandatory []], 32⟩ (tolerating.excluding ⟨1⟩) toleratedRegistry
      (.withValid [1, 2, 3] 2)).result = .ok ⟨2, ⟨1⟩⟩ :=
  ⟨fun _ hc => failsCleanly_of_uses_tolerated hc, answersAlike_of_steady (steady_registry _) _ _ _ _,
    rfl, rfl⟩

end Engine

end FilteredChunks
