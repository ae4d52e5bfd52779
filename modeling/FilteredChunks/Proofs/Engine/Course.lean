import FilteredChunks.Proofs.Engine.Step
import Mathlib.Data.List.Nodup

/-!
# The course of a run

A run either takes all of its steps or stops at one of them.  `Stops options index step p fault p'` lists
the ways in which a step ends a run, as `Passes` lists those in which it goes on, and `Condemns` says
how a codec's failure was not put up with; `stops_of_runStep` is the inversion.  With them a run is taken
apart: at any step of one that goes through (`exists_runStep`), and at the last step of one that does not
(`exists_stops`).  What all steps have in common is stated after that: events are only added, marks stay,
and a source is asked to load only what it does not have.
-/

namespace FilteredChunks

/-- The sources that come of a source when it loads classes, each for a step whose class is missing. -/
inductive CodecSource.Fills {σ : Type} [CodecSource σ] (source : σ) : σ → Prop
  | refl : Fills source source
  | load {s : σ} (h : Fills source s) (index : Nat) (step : FilterStep)
      (hc : CodecSource.codec s index step = none) : Fills source (CodecSource.load s step).source

namespace Engine

variable {σ : Type}

/-- What is said of a step whose codec failed. -/
def Options.failureOf (options : Options) (step : FilterStep) : FilterError :=
  match options.direction with
  | .write => .writeFailed step.id .returnedFailure
  | .read => .readFailed step.id .returnedFailure

/-- The ways in which a run ends after the codec of a step has failed. -/
inductive Condemns (options : Options) (step : FilterStep) (p : Progress σ) :
    Fault → Progress σ → Prop
  | unasked (hno : options.onFailure = none)
      (hm : options.direction = .write → step.isOptional = false) :
      Condemns options step p (.failure (options.failureOf step)) p
  | refused (callback : FilterId → Bytes → Verdict) (seen : Bytes)
      (hcallback : options.onFailure = some callback)
      (hseen : options.seen? p.buffer = some seen) (hstop : callback step.id seen = .fail)
      (hm : options.direction = .write → step.isOptional = false) :
      Condemns options step p (.failure (options.failureOf step)) (p.note (.callback step.id seen))
  /-- The valid bytes that the callback was to see are not there. -/
  | unseen (callback : FilterId → Bytes → Verdict) (hcallback : options.onFailure = some callback)
      (hw : options.direction = .write) (hno : p.buffer.valid? = none)
      (hm : step.isOptional = false) : Condemns options step p .crash p

variable [CodecSource σ]

/-- The progress after the class of a step was not known and has been asked for. -/
def Progress.loading (p : Progress σ) (index : Nat) (step : FilterStep) : Progress σ :=
  { (p.note (.lookup index step.id)).note (.load step.id) with
    source := (CodecSource.load p.source step).source
    metrics := p.metrics ++ (CodecSource.load p.source step).metrics }

/-- The ways in which a step ends a run. -/
inductive Stops (options : Options) (index : Nat) (step : FilterStep) (p : Progress σ) :
    Fault → Progress σ → Prop
  | unregistered (hm : p.mask.isSet index = false) (hw : options.direction = .write)
      (hc : CodecSource.codec p.source index step = none) (ho : step.isOptional = false) :
      Stops options index step p (.failure (.writeFailed step.id .notRegistered))
        (p.note (.lookup index step.id))
  /-- Loading failed, or there was nothing to load. -/
  | unloaded (hm : p.mask.isSet index = false) (hr : options.direction = .read)
      (hc : CodecSource.codec p.source index step = none) (error : FilterError)
      (hl : (CodecSource.load p.source step).result = .error error ∨
        (CodecSource.load p.source step).result = .ok none ∧
          error = .readFailed step.id (.notRegistered step.name)) :
      Stops options index step p (.failure error) (p.loading index step)
  /-- The client words of the step are out of range. -/
  | unreadable (hm : p.mask.isSet index = false) (c : FilterClass) (q : Progress σ)
      (hc : Finds options index step p c q) (hread : ¬ step.IsReadable) :
      Stops options index step p .crash q
  | crashed (hm : p.mask.isSet index = false) (c : FilterClass) (q : Progress σ)
      (hc : Finds options index step p c q)
      (ht : c.codec.transform (step.flags ||| options.callFlags) step.words p.buffer.nbytes
        p.buffer.data = .crashed) (hread : step.IsReadable) :
      Stops options index step p .crash
        (q.noteCall c (step.flags ||| options.callFlags) step.words)
  | condemned (hm : p.mask.isSet index = false) (c : FilterClass) (q p' : Progress σ)
      (hc : Finds options index step p c q) (data : Bytes)
      (ht : c.codec.transform (step.flags ||| options.callFlags) step.words p.buffer.nbytes
        p.buffer.data = .produced 0 data) (fault : Fault)
      (hf : Condemns options step
        ((q.noteCall c (step.flags ||| options.callFlags) step.words).leave data p.buffer.nbytes)
        fault p') (hread : step.IsReadable) :
      Stops options index step p fault p'

variable {options : Options} {index : Nat} {step : FilterStep} {c : FilterClass}
  {p p' q : Progress σ} {fault : Fault}

/-- The class that a step gets from a source; on read it may be loaded. -/
def classFor (direction : Direction) (source : σ) (index : Nat) (step : FilterStep) :
    Option FilterClass :=
  match CodecSource.codec source index step, direction with
  | some c, _ => some c
  | none, .write => none
  | none, .read =>
    match (CodecSource.load source step).result with
    | .ok found => found
    | .error _ => none

/-- A run of a pipeline may come to use a class, whatever its source has loaded by then. -/
def Uses (direction : Direction) (pipeline : FilterPipeline) (source : σ) (c : FilterClass) : Prop :=
  ∃ s index step, CodecSource.Fills source s ∧ pipeline.get? index = some step ∧
    classFor direction s index step = some c

theorem Finds.buffer_eq (h : Finds options index step p c q) : q.buffer = p.buffer := by
  cases h <;> rfl

theorem Finds.mask_eq (h : Finds options index step p c q) : q.mask = p.mask := by
  cases h <;> rfl

theorem classFor_eq_some_iff :
    classFor options.direction p.source index step = some c ↔
      ∃ q, Finds options index step p c q := by
  constructor
  · intro h
    unfold classFor at h
    split at h
    · next hc =>
      cases h
      exact ⟨_, .known _ hc⟩
    · cases h
    next hc hr =>
    split at h
    · next found hl =>
      subst h
      exact ⟨_, .loaded c hr hc hl⟩
    · cases h
  · rintro ⟨q, hq⟩
    unfold classFor
    cases hq with
    | known hc => rw [hc]
    | loaded hr hc hl => rw [hc, hr, hl]

/-! ### Inversion -/

omit [CodecSource σ] in
theorem condemns_of_consult {seen : Bytes} (hseen : options.seen? p.buffer = some seen)
    (hm : options.direction = .write → step.isOptional = false)
    (h : consult options index step.id seen (options.failureOf step) p = (.error fault, p')) :
    Condemns options step p fault p' := by
  unfold consult at h
  split at h
  · next hno =>
    cases h
    exact .unasked hno hm
  next callback hcallback =>
  dsimp only at h
  split at h
  · next hstop =>
    cases h
    exact .refused callback seen hcallback hseen hstop hm
  · cases h

omit [CodecSource σ] in
theorem condemns_of_failedWrite (hw : options.direction = .write)
    (h : failedWrite options index step p = (.error fault, p')) :
    Condemns options step p fault p' := by
  have hfailure : FilterError.writeFailed step.id .returnedFailure = options.failureOf step := by
    rw [Options.failureOf, hw]
  unfold failedWrite at h
  split at h
  · cases h
  next ho =>
  have hm : step.isOptional = false := by simpa using ho
  dsimp only at h
  split at h
  · next callback hcallback hnone =>
    cases h
    exact .unseen callback hcallback hw hnone hm
  next hsees =>
  cases hvalid : p.buffer.valid? with
  | some seen =>
    rw [hvalid, hfailure] at h
    exact condemns_of_consult (by rw [Options.seen?, hw]; exact hvalid) (fun _ => hm) h
  | none =>
    -- nothing can be shown, and nobody is there to see it
    have hno : options.onFailure = none := by
      cases hcallback : options.onFailure with
      | none => rfl
      | some callback => exact absurd hvalid (hsees callback hcallback)
    rw [consult, hno] at h
    cases h
    rw [hfailure]
    exact .unasked hno fun _ => hm

omit [CodecSource σ] in
theorem condemns_of_failedRead (hr : options.direction = .read)
    (h : failedRead options index step p = (.error fault, p')) : Condemns options step p fault p' := by
  have hfailure : FilterError.readFailed step.id .returnedFailure = options.failureOf step := by
    rw [Options.failureOf, hr]
  unfold failedRead at h
  rw [hfailure] at h
  exact condemns_of_consult (by rw [Options.seen?, hr]) (fun hw => by rw [hr] at hw; cases hw) h

theorem stops_of_callCodec (hm : p.mask.isSet index = false) (hc : Finds options index step p c q)
    (h : callCodec options index step c q = (.error fault, p')) :
    Stops options index step p fault p' := by
  unfold callCodec at h
  split at h
  · next hwords =>
    cases h
    exact .unreadable hm c _ hc (FilterStep.words?_eq_none_iff.1 hwords)
  next words hwords =>
  obtain rfl := FilterStep.words_eq hwords
  have hread : step.IsReadable := FilterStep.isReadable_of_words? hwords
  dsimp only at h
  rw [hc.buffer_eq] at h
  split at h
  · next ht =>
    cases h
    exact .crashed hm c q hc ht hread
  · cases h
  next data ht =>
  refine .condemned hm c q p' hc data ht fault ?_ hread
  split at h
  · next hw => exact condemns_of_failedWrite hw h
  · next hr => exact condemns_of_failedRead hr h

/-- **Inversion of a step that ends a run**: it went one of the ways of `Stops`. -/
theorem stops_of_runStep (h : runStep options index step p = (.error fault, p')) :
    Stops options index step p fault p' := by
  unfold runStep at h
  split at h
  · cases h
  next hm =>
  rw [Bool.not_eq_true] at hm
  dsimp only at h
  split at h
  · next c hc => exact stops_of_callCodec hm (.known c hc) h
  next hc =>
  unfold missingCodec at h
  split at h
  · next hw =>
    split at h
    · cases h
    · next ho =>
      cases h
      exact .unregistered hm hw hc (by simpa using ho)
  next hr =>
  dsimp only at h
  split at h
  · next error hl =>
    cases h
    exact .unloaded hm hr hc error (.inl hl)
  · next hl =>
    cases h
    exact .unloaded hm hr hc _ (.inr ⟨hl, rfl⟩)
  · next c hl => exact stops_of_callCodec hm (.loaded c hr hc hl) h

theorem runStep_of_finds (hm : p.mask.isSet index = false) (hc : Finds options index step p c q) :
    runStep options index step p = callCodec options index step c q := by
  rw [runStep, if_neg (by simp [hm])]
  cases hc with
  | known hc =>
    dsimp only
    rw [hc]
  | loaded hr hc hl =>
    dsimp only
    rw [hc]
    dsimp only [missingCodec]
    rw [hr]
    dsimp only [Progress.note]
    rw [hl]

omit [CodecSource σ] in
theorem callCodec_of_produced {n : Nat} {data : Bytes} (hread : step.IsReadable)
    (ht : c.codec.transform (step.flags ||| options.callFlags) step.words q.buffer.nbytes
      q.buffer.data = .produced (n + 1) data) :
    callCodec options index step c q =
      (.ok (), (q.noteCall c (step.flags ||| options.callFlags) step.words).leave data (n + 1)) := by
  rw [callCodec, hread.words?_eq]
  dsimp only
  rw [ht]

omit [CodecSource σ] in
theorem exists_callCodec_failed (hr : options.direction = .read) {data : Bytes}
    (hread : step.IsReadable)
    (ht : c.codec.transform (step.flags ||| options.callFlags) step.words q.buffer.nbytes
      q.buffer.data = .produced 0 data)
    (hcallback : ∀ callback, options.onFailure = some callback → callback step.id data = .fail) :
    ∃ p', callCodec options index step c q =
        (.error (.failure (.readFailed step.id .returnedFailure)), p') ∧
      p'.buffer = ⟨data, q.buffer.nbytes⟩ := by
  rw [callCodec, hread.words?_eq]
  dsimp only
  rw [ht, hr]
  dsimp only [failedRead]
  rw [consult]
  cases hasked : options.onFailure with
  | none => exact ⟨_, rfl, rfl⟩
  | some callback =>
    dsimp only [Progress.leave, Progress.noteCall, Progress.note]
    rw [hcallback callback hasked]
    exact ⟨_, rfl, rfl⟩

/-! ### Taking a run apart -/

omit [CodecSource σ] in
theorem mem_ordered_iff {direction : Direction} {steps : List FilterStep} {x : FilterStep × Nat} :
    x ∈ ordered direction steps ↔ steps[x.2]? = some x.1 := by
  cases direction with
  | write => exact List.mem_zipIdx_iff_getElem?
  | read => exact List.mem_reverse.trans List.mem_zipIdx_iff_getElem?

omit [CodecSource σ] in
theorem nodup_ordered (direction : Direction) (steps : List FilterStep) :
    ((ordered direction steps).map Prod.snd).Nodup := by
  unfold ordered
  split <;> simp [List.nodup_range']

omit [CodecSource σ] in
theorem notMem_of_ordered {direction : Direction} {steps : List FilterStep}
    {before after : List (FilterStep × Nat)} {x : FilterStep × Nat}
    (h : ordered direction steps = before ++ x :: after) :
    x.2 ∉ before.map Prod.snd ∧ x.2 ∉ after.map Prod.snd := by
  have hnodup := nodup_ordered direction steps
  rw [h, List.map_append, List.map_cons] at hnodup
  obtain ⟨-, hrest, hdisjoint⟩ := List.nodup_append.1 hnodup
  exact ⟨fun hx => hdisjoint _ hx _ List.mem_cons_self rfl, (List.nodup_cons.1 hrest).1⟩

theorem exists_runStep {before after : List (FilterStep × Nat)} {x : FilterStep × Nat}
    (h : runSteps options (before ++ x :: after) p = (.ok (), p')) :
    ∃ q q', runSteps options before p = (.ok (), q) ∧
      runStep options x.2 x.1 q = (.ok (), q') ∧ runSteps options after q' = (.ok (), p') := by
  rw [runSteps_append] at h
  split at h
  · next q hbefore =>
    rw [runSteps] at h
    split at h
    · next q' hstep => exact ⟨q, q', hbefore, hstep, h⟩
    · cases h
  · cases h

theorem runSteps_concat {before : List (FilterStep × Nat)} {x : FilterStep × Nat}
    (hbefore : runSteps options before p = (.ok (), q))
    (hstep : runStep options x.2 x.1 q = (.ok (), p')) :
    runSteps options (before ++ [x]) p = (.ok (), p') := by
  rw [runSteps_append, hbefore]
  dsimp only
  rw [runSteps, hstep]
  rfl

/-- A run that does not go through stops at one of its steps, having gone through those before. -/
theorem exists_stops {steps : List (FilterStep × Nat)}
    (h : runSteps options steps p = (.error fault, p')) :
    ∃ before x after q, steps = before ++ x :: after ∧ runSteps options before p = (.ok (), q) ∧
      Stops options x.2 x.1 q fault p' := by
  induction steps generalizing p with
  | nil => cases h
  | cons x rest ih =>
    rw [runSteps] at h
    split at h
    · next p₁ hstep =>
      obtain ⟨before, y, after, q, rfl, hbefore, hstops⟩ := ih h
      refine ⟨x :: before, y, after, q, rfl, ?_, hstops⟩
      rw [runSteps, hstep]
      exact hbefore
    · next fault₁ p₁ hstep =>
      cases h
      exact ⟨[], x, rest, p, rfl, rfl, stops_of_runStep hstep⟩

theorem runSteps_of_stop {before after : List (FilterStep × Nat)} {x : FilterStep × Nat}
    (hbefore : runSteps options before p = (.ok (), q))
    (hstep : runStep options x.2 x.1 q = (.error fault, p')) :
    runSteps options (before ++ x :: after) p = (.error fault, p') := by
  rw [runSteps_append, hbefore]
  dsimp only
  rw [runSteps, hstep]

/-! ### What every step does -/

/-- What each step keeps as it lets the run go on, the run keeps. -/
theorem runSteps_induction {motive : Progress σ → Prop} {steps : List (FilterStep × Nat)}
    (hstep : ∀ x ∈ steps, ∀ q q', Passes options x.2 x.1 q q' → motive q → motive q')
    (h : runSteps options steps p = (.ok (), p')) (hp : motive p) : motive p' := by
  induction steps generalizing p with
  | nil =>
    cases h
    exact hp
  | cons x rest ih =>
    rw [runSteps] at h
    split at h
    · next p₁ hx =>
      have hp₁ : motive p₁ := hstep x List.mem_cons_self p p₁ (passes_of_runStep hx) hp
      exact ih (fun y hy => hstep y (List.mem_cons_of_mem x hy)) h hp₁
    · cases h

theorem Finds.events (h : Finds options index step p c q) :
    p.events ++ [.lookup index step.id] <+: q.events := by
  cases h with
  | known => exact List.prefix_rfl
  | loaded => exact List.prefix_append _ _

theorem Passes.events (h : Passes options index step p p') : p.events <+: p'.events := by
  have found {c q} (hc : Finds options index step p c q) : p.events <+: q.events :=
    (List.prefix_append _ _).trans hc.events
  cases h with
  | masked => exact List.prefix_rfl
  | absent => exact List.prefix_append _ _
  | applied hm c q hc n data ht => exact (found hc).trans (List.prefix_append _ _)
  | forgiven hm c q p' hc data ht hf =>
    refine (found hc).trans ?_
    cases hf with
    | optional => exact List.prefix_append _ _
    | rescued => exact (List.prefix_append _ _).trans (List.prefix_append _ _)

theorem events_of_runSteps {steps : List (FilterStep × Nat)}
    (h : runSteps options steps p = (.ok (), p')) : p.events <+: p'.events :=
  runSteps_induction (motive := fun q => p.events <+: q.events)
    (fun _ _ _ _ hpasses hq => hq.trans hpasses.events) h List.prefix_rfl

theorem Passes.isSet (h : Passes options index step p p') {j : Nat} (hj : p.mask.isSet j = true) :
    p'.mask.isSet j = true := by
  have skip (q : Progress σ) (hq : q.mask = p.mask) : (q.skip index).mask.isSet j = true := by
    rw [Progress.skip, FilterMask.isSet_set, hq, hj]
    rfl
  cases h with
  | masked => exact hj
  | absent => exact skip _ rfl
  | applied hm c q hc => exact hc.mask_eq ▸ hj
  | forgiven hm c q p' hc data ht hf =>
    cases hf with
    | optional => exact skip _ hc.mask_eq
    | rescued => exact skip _ hc.mask_eq

theorem isSet_of_runSteps_of_isSet {steps : List (FilterStep × Nat)}
    (h : runSteps options steps p = (.ok (), p')) {j : Nat} (hj : p.mask.isSet j = true) :
    p'.mask.isSet j = true :=
  runSteps_induction (motive := fun q => q.mask.isSet j = true)
    (fun _ _ _ _ hpasses hq => hpasses.isSet hq) h hj

theorem isSet_of_run {pipeline : FilterPipeline} {source : σ} {buffer : ChunkBuffer}
    {outcome : Outcome} (h : (run pipeline options source buffer).result = .ok outcome) {i : Nat}
    (hi : options.exclude.isSet i = true) : outcome.mask.isSet i = true := by
  cases hempty : pipeline.isEmpty with
  | true =>
    rw [run, if_pos hempty] at h
    cases h
    exact hi
  | false =>
    obtain ⟨-, -, p, hsteps, hmask, -⟩ := exists_runSteps_of_run hempty h
    rw [hmask]
    exact isSet_of_runSteps_of_isSet hsteps hi

theorem Finds.source_of_write (hw : options.direction = .write)
    (h : Finds options index step p c q) : q.source = p.source := by
  cases h with
  | known => rfl
  | loaded hr =>
    rw [hw] at hr
    cases hr

theorem Passes.source_of_write (hw : options.direction = .write)
    (h : Passes options index step p p') : p'.source = p.source := by
  cases h with
  | masked => rfl
  | absent => rfl
  | applied hm c q hc =>
    have hsource := hc.source_of_write hw
    exact hsource
  | forgiven hm c q p' hc data ht hf =>
    have hsource := hc.source_of_write hw
    cases hf <;> exact hsource

theorem source_of_runSteps_write (hw : options.direction = .write) {steps : List (FilterStep × Nat)}
    (h : runSteps options steps p = (.ok (), p')) : p'.source = p.source :=
  runSteps_induction (motive := fun r => r.source = p.source)
    (fun _ _ _ _ hpasses hr => (hpasses.source_of_write hw).trans hr) h rfl

variable {source : σ}

theorem Finds.fills (h : Finds options index step p c q) (hp : CodecSource.Fills source p.source) :
    CodecSource.Fills source q.source := by
  cases h with
  | known => exact hp
  | loaded hr hc hl => exact hp.load index step hc

theorem Finds.uses {pipeline : FilterPipeline} {x : FilterStep × Nat}
    (h : Finds options x.2 x.1 p c q) (hx : x ∈ ordered options.direction pipeline.steps)
    (hp : CodecSource.Fills source p.source) : Uses options.direction pipeline source c :=
  ⟨p.source, x.2, x.1, hp, mem_ordered_iff.1 hx, classFor_eq_some_iff.2 ⟨q, h⟩⟩

theorem Passes.fills (h : Passes options index step p p')
    (hp : CodecSource.Fills source p.source) : CodecSource.Fills source p'.source := by
  cases h with
  | masked => exact hp
  | absent => exact hp
  | applied hm c q hc => exact hc.fills hp
  | forgiven hm c q p' hc data ht hf => cases hf <;> exact hc.fills hp

theorem Stops.fills (h : Stops options index step p fault p')
    (hp : CodecSource.Fills source p.source) : CodecSource.Fills source p'.source := by
  cases h with
  | unregistered => exact hp
  | unloaded hm hr hc => exact hp.load index step hc
  | unreadable hm c q hc => exact hc.fills hp
  | crashed hm c q hc => exact hc.fills hp
  | condemned hm c q p' hc data ht fault hf => cases hf <;> exact hc.fills hp

theorem fills_of_runSteps {steps : List (FilterStep × Nat)} {result : Except Fault Unit}
    (h : runSteps options steps p = (result, p')) (hp : CodecSource.Fills source p.source) :
    CodecSource.Fills source p'.source := by
  induction steps generalizing p with
  | nil =>
    cases h
    exact hp
  | cons x rest ih =>
    rw [runSteps] at h
    split at h
    · next p₁ hstep => exact ih h ((passes_of_runStep hstep).fills hp)
    · next fault p₁ hstep =>
      cases h
      exact (stops_of_runStep hstep).fills hp

/-- **A run asks its source for nothing but what is missing.** -/
theorem fills_run (pipeline : FilterPipeline) (options : Options) (source : σ)
    (buffer : ChunkBuffer) :
    CodecSource.Fills source (run pipeline options source buffer).source := by
  unfold run
  split
  · exact .refl
  split
  · exact .refl
  rcases hsteps : runSteps options (ordered options.direction pipeline.steps)
    ⟨buffer, options.exclude, source, [], []⟩ with ⟨result, p⟩
  exact fills_of_runSteps hsteps .refl

end Engine

end FilteredChunks
