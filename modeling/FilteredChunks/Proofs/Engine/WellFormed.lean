import FilteredChunks.Proofs.Registry.Table

/-!
# What a run leaves of its buffer

With built-in filters a run ends with a buffer whose valid bytes can be taken, also when it fails.  There
is one exception.  A built-in codec that fails leaves the buffer alone, but for deflate, when it expands a
stream that stands for no bytes: it puts the empty result in the place of the buffer, and reports no bytes,
which counts as a failure.  If no callback lets the run go on, its count stays what it was, and the
buffer has nothing.

`MeetsEmptyStream` says of a run that this happens in it, in terms of the steps that it has gone
through by then.  The main statement, `isValid_run_iff`, is that a run leaves a buffer shorter than
its count exactly then.
-/

namespace FilteredChunks

/-- **A built-in codec that fails leaves the buffer alone**, unless it has expanded a stream to
nothing. -/
theorem Builtin.left_of_failure [Compression] (hheader : Compression.HasHeader) {c : FilterClass}
    (hc : c ∈ classes) {flags : FilterFlags} {words : List UInt32} {nbytes : Nat} {data left : Bytes}
    (h : c.codec.transform flags words nbytes data = .produced 0 left) :
    left = data ∨ c = DeflateFilter.filterClass ∧ flags.contains .reverse = true ∧
      Compression.expand (data.take nbytes) = some [] ∧ left = [] := by
  simp only [classes, List.mem_cons, List.not_mem_nil, or_false] at hc
  rcases hc with rfl | rfl | rfl
  · simp only [DeflateFilter.filterClass, FilterClass.ofCodec, Codec.ofTransform,
      DeflateFilter.transform] at h
    split at h
    · next output houtput =>
      obtain ⟨hlength, rfl⟩ := Reply.produced.inj h
      obtain rfl := List.length_eq_zero_iff.1 hlength
      split at houtput
      · next hreverse => exact .inr ⟨rfl, hreverse, houtput, rfl⟩
      split at houtput
      · cases houtput
      · next hlevel =>
        -- what is compressed has a header
        exact absurd rfl (hheader _ _ _ (Nat.le_of_not_lt hlevel) houtput)
    · cases h
      exact .inl rfl
  · cases words with
    | nil =>
      cases h
      exact .inl rfl
    | cons word words =>
      obtain ⟨left', h', -, hkept⟩ := Shuffle.transform_cons flags word words nbytes data
      obtain ⟨hcount, rfl⟩ := Reply.produced.inj (h'.symm.trans h)
      exact .inl (hkept hcount)
  · cases hreverse : flags.contains .reverse with
    | false =>
      obtain ⟨hcount, -⟩ :=
        Reply.produced.inj ((Fletcher32.transform_forward hreverse words nbytes data).symm.trans h)
      cases hcount
    | true =>
      obtain ⟨count, -, h'⟩ := Fletcher32.transform_backward hreverse words nbytes data
      exact .inl (Reply.produced.inj (h'.symm.trans h)).2.symm

namespace Engine

variable {σ : Type} [CodecSource σ]

/-- A run is about to have deflate expand a stream that stands for no bytes, and no callback will let it
go on after that. -/
structure AtEmptyStream [Compression] (options : Options) (x : FilterStep × Nat) (p : Progress σ) :
    Prop where
  reading : options.direction = .read
  unmasked : p.mask.isSet x.2 = false
  readable : x.1.IsReadable
  deflate : ∃ q, Finds options x.2 x.1 p DeflateFilter.filterClass q
  stream : p.buffer.toBytes ≠ []
  expands : Compression.expand p.buffer.toBytes = some []
  unforgiven : ∀ callback, options.onFailure = some callback → callback x.1.id [] = .fail

/-- A run that starts comes to such a stream. -/
def MeetsEmptyStream [Compression] (pipeline : FilterPipeline) (options : Options) (source : σ)
    (buffer : ChunkBuffer) : Prop :=
  buffer.nbytes ≠ 0 ∧ ∃ before x after p,
    ordered options.direction pipeline.steps = before ++ x :: after ∧
    runSteps options before ⟨buffer, options.exclude, source, [], []⟩ = (.ok (), p) ∧
    AtEmptyStream options x p

variable {options : Options} {source : σ} {x : FilterStep × Nat} {p p' : Progress σ}

omit [CodecSource σ] in
theorem Condemns.buffer_eq {step : FilterStep} {fault : Fault} (h : Condemns options step p fault p') :
    p'.buffer = p.buffer := by
  cases h <;> rfl

/-! ### The invariant -/

/-- The count is within the buffer, and on write something counts. -/
structure Sized (options : Options) (p : Progress σ) : Prop where
  valid : p.buffer.IsValid
  pos : options.direction = .write → 0 < p.buffer.nbytes

omit [CodecSource σ] in
/-- A bounded codec reports no more than it leaves, and if it fails on write it leaves the buffer. -/
theorem Sized.fits {step : FilterStep} {c : FilterClass} {n : Nat} {left : Bytes}
    (hp : Sized options p) (hflags : step.flags.isDefinition = true) (hc : c.codec.IsBounded)
    (h : c.codec.transform (step.flags ||| options.callFlags) step.words p.buffer.nbytes
      p.buffer.data = .produced n left) :
    n ≤ left.length ∧ (options.direction = .write → n = 0 → left = p.buffer.data) := by
  cases hdirection : options.direction with
  | write =>
    rw [Options.callFlags_write hdirection] at h
    obtain ⟨count, left', h', hfits, hkept⟩ :=
      hc.forward step.flags step.words _ _ hflags (hp.pos hdirection) hp.valid
    obtain ⟨rfl, rfl⟩ := Reply.produced.inj (h'.symm.trans h)
    exact ⟨hfits, fun _ => hkept⟩
  | read =>
    obtain ⟨count, left', h', hfits⟩ :=
      hc.backward _ step.words _ _ (Options.contains_reverse hdirection step.flags) hp.valid
    obtain ⟨rfl, rfl⟩ := Reply.produced.inj (h'.symm.trans h)
    exact ⟨hfits, nofun⟩

theorem Passes.sized (h : Passes options x.2 x.1 p p') (hflags : x.1.flags.isDefinition = true)
    (hcodecs : ∀ c q, Finds options x.2 x.1 p c q → c.codec.IsBounded) (hp : Sized options p) :
    Sized options p' := by
  cases h with
  | masked => exact hp
  | absent => exact ⟨hp.valid, hp.pos⟩
  | applied hm c q hc n data ht =>
    exact ⟨(hp.fits hflags (hcodecs c q hc) ht).1, fun _ => Nat.succ_pos n⟩
  | forgiven hm c q p' hc data ht hf =>
    obtain ⟨-, hkept⟩ := hp.fits hflags (hcodecs c q hc) ht
    cases hf with
    | optional hw =>
      obtain rfl := hkept hw rfl
      exact ⟨hp.valid, hp.pos⟩
    | rescued =>
      refine ⟨Nat.le_refl _, fun hw => ?_⟩
      obtain rfl := hkept hw rfl
      exact Nat.lt_of_lt_of_le (hp.pos hw) hp.valid

theorem sized_of_runSteps {pipeline : FilterPipeline} {start : Progress σ}
    (hflags : ∀ step ∈ pipeline.steps, step.flags.isDefinition = true)
    (hcodecs : ∀ c, Uses options.direction pipeline start.source c → c.codec.IsBounded)
    (hstart : Sized options start) {before after : List (FilterStep × Nat)}
    (hsteps : ordered options.direction pipeline.steps = before ++ after)
    (h : runSteps options before start = (.ok (), p)) : Sized options p := by
  have hinvariant : CodecSource.Fills start.source p.source ∧ Sized options p := by
    refine runSteps_induction
      (motive := fun q => CodecSource.Fills start.source q.source ∧ Sized options q)
      (fun x hx q q' hpasses ⟨hq, hsized⟩ => ?_) h ⟨.refl, hstart⟩
    have hmem : x ∈ ordered options.direction pipeline.steps :=
      hsteps ▸ List.mem_append_left _ hx
    have hdefinition : x.1.flags.isDefinition = true :=
      hflags x.1 (List.mem_of_getElem? (mem_ordered_iff.1 hmem))
    exact ⟨hpasses.fills hq,
      hpasses.sized hdefinition (fun c q₁ hc => hcodecs c (hc.uses hmem hq)) hsized⟩
  exact hinvariant.2

variable [Compression]

/-- A step that ends a run leaves a valid buffer, but for an empty stream. -/
theorem isValid_of_stops (hheader : Compression.HasHeader)
    (hcodecs : ∀ c q, Finds options x.2 x.1 p c q → c ∈ Builtin.classes)
    (hflags : x.1.flags.isDefinition = true) (hp : Sized options p) {fault : Fault}
    (h : Stops options x.2 x.1 p fault p') : p'.buffer.IsValid ∨ AtEmptyStream options x p := by
  cases h with
  | unregistered => exact .inl hp.valid
  | unloaded => exact .inl hp.valid
  | unreadable hm c q hc => exact .inl (hc.buffer_eq ▸ hp.valid)
  | crashed hm c q hc ht =>
    refine .inl ?_
    show q.buffer.IsValid
    rw [hc.buffer_eq]
    exact hp.valid
  | condemned hm c q p' hc data ht fault hf hreadable =>
    have hbuffer : p'.buffer = ⟨data, p.buffer.nbytes⟩ := hf.buffer_eq
    rw [hbuffer]
    rcases Builtin.left_of_failure hheader (hcodecs c q hc) ht with
      rfl | ⟨rfl, hreverse, hexpand, rfl⟩
    · exact .inl hp.valid
    cases hbytes : p.buffer.toBytes with
    | nil =>
      -- nothing counted before either
      have hcount : p.buffer.nbytes = 0 := by
        have hlength := congrArg List.length hbytes
        have hvalid : p.buffer.nbytes ≤ p.buffer.data.length := hp.valid
        rw [ChunkBuffer.toBytes, List.length_take, List.length_nil] at hlength
        omega
      exact .inl (Nat.le_of_eq hcount)
    | cons b bytes =>
      have hread : options.direction = .read := by
        cases hdirection : options.direction with
        | read => rfl
        | write =>
          rw [Options.callFlags_write hdirection,
            FilterFlags.contains_reverse_of_isDefinition hflags] at hreverse
          cases hreverse
      refine .inr ⟨hread, hm, hreadable, ⟨q, hc⟩, by simp [hbytes], hexpand, fun callback hcallback => ?_⟩
      cases hf with
      | unasked hno =>
        rw [hno] at hcallback
        cases hcallback
      | refused callback' seen hcallback' hseen hstop =>
        obtain rfl := Option.some.inj (hcallback'.symm.trans hcallback)
        rw [Options.seen?, hread] at hseen
        cases hseen
        exact hstop
      | unseen _ _ hw =>
        rw [hread] at hw
        cases hw

/-- A step with an empty stream ends the run and leaves the count as it is, of no bytes. -/
theorem runStep_of_atEmptyStream (h : AtEmptyStream options x p) :
    ∃ p', runStep options x.2 x.1 p =
        (.error (.failure (.readFailed x.1.id .returnedFailure)), p') ∧
      p'.buffer = ⟨[], p.buffer.nbytes⟩ := by
  obtain ⟨q, hq⟩ := h.deflate
  have htransform : DeflateFilter.filterClass.codec.transform (x.1.flags ||| options.callFlags)
      x.1.words q.buffer.nbytes q.buffer.data = .produced 0 [] := by
    have hreverse := Options.contains_reverse h.reading x.1.flags
    have hexpand : Compression.expand (q.buffer.data.take q.buffer.nbytes) = some [] := by
      rw [hq.buffer_eq]
      exact h.expands
    simp only [DeflateFilter.filterClass, FilterClass.ofCodec, Codec.ofTransform,
      DeflateFilter.transform, hreverse, if_true, hexpand, List.length_nil]
  rw [runStep_of_finds h.unmasked hq, ← hq.buffer_eq]
  exact exists_callCodec_failed h.reading h.readable htransform h.unforgiven

/-- **A run that meets an empty stream fails there**, and leaves a count of bytes that are gone. -/
theorem run_of_meetsEmptyStream {pipeline : FilterPipeline} {buffer : ChunkBuffer}
    (hvalid : buffer.IsValid) (h : MeetsEmptyStream pipeline options source buffer) :
    (∃ id, (run pipeline options source buffer).result =
      .error (.failure (.readFailed id .returnedFailure))) ∧
    (run pipeline options source buffer).buffer.data = [] ∧
    (run pipeline options source buffer).buffer.nbytes ≠ 0 := by
  obtain ⟨hbytes, before, x, after, p, hsteps, hbefore, hat⟩ := h
  obtain ⟨p', hstep, hbuffer⟩ := runStep_of_atEmptyStream hat
  have hempty : pipeline.isEmpty = false := by
    cases hpipeline : pipeline.isEmpty with
    | false => rfl
    | true =>
      have hx : pipeline.steps[x.2]? = some x.1 :=
        mem_ordered_iff.1 (hsteps ▸ List.mem_append_right _ List.mem_cons_self)
      rw [List.isEmpty_iff.1 hpipeline] at hx
      cases hx
  have hdata : buffer.data ≠ [] := by
    rintro hnil
    rw [ChunkBuffer.IsValid, hnil] at hvalid
    exact hbytes (Nat.le_zero.1 hvalid)
  have hcount : p.buffer.nbytes ≠ 0 := by
    intro hzero
    refine hat.stream ?_
    rw [ChunkBuffer.toBytes, hzero, List.take_zero]
  rw [run_eq hempty hbytes hdata (hsteps ▸ runSteps_of_stop hbefore hstep)]
  exact ⟨⟨x.1.id, rfl⟩, by rw [hbuffer], by rw [hbuffer]; exact hcount⟩

/-- **The bytes that count are there after every run with built-in filters but one that meets an empty
stream.**  The steps have any client words and any flags that a step may be defined with, and it does
not matter whether the run succeeds. -/
theorem isValid_run_iff (hheader : Compression.HasHeader) {pipeline : FilterPipeline}
    (hflags : ∀ step ∈ pipeline.steps, step.flags.isDefinition = true)
    (hcodecs : ∀ c, Uses options.direction pipeline source c → c ∈ Builtin.classes)
    {buffer : ChunkBuffer} (hvalid : buffer.IsValid) :
    (run pipeline options source buffer).buffer.IsValid ↔
      ¬ MeetsEmptyStream pipeline options source buffer := by
  constructor
  · intro hrun hmeets
    obtain ⟨-, hdata, hcount⟩ := run_of_meetsEmptyStream hvalid hmeets
    rw [ChunkBuffer.IsValid, hdata] at hrun
    exact hcount (Nat.le_zero.1 hrun)
  intro hmeets
  unfold run
  split
  · exact hvalid
  split
  · exact hvalid
  next hbytes =>
  let start : Progress σ := ⟨buffer, options.exclude, source, [], []⟩
  have hstart : Sized options start :=
    ⟨hvalid, fun _ => Nat.pos_of_ne_zero fun h0 => hbytes (.inl h0)⟩
  have hbounded : ∀ c, Uses options.direction pipeline source c → c.codec.IsBounded :=
    fun c hc => Codec.isBounded_of_isGuarded hheader (.builtin (hcodecs c hc))
  rcases hsteps : runSteps options (ordered options.direction pipeline.steps) start with
    ⟨_ | ⟨⟩, p⟩
  · obtain ⟨before, x, after, q, hall, hbefore, hstops⟩ := exists_stops hsteps
    have hx : x ∈ ordered options.direction pipeline.steps :=
      hall ▸ List.mem_append_right _ List.mem_cons_self
    have hdefinition : x.1.flags.isDefinition = true :=
      hflags x.1 (List.mem_of_getElem? (mem_ordered_iff.1 hx))
    have hfound : ∀ c q', Finds options x.2 x.1 q c q' → c ∈ Builtin.classes :=
      fun c q' hc => hcodecs c (hc.uses hx (fills_of_runSteps hbefore .refl))
    have hsized : Sized options q := sized_of_runSteps hflags hbounded hstart hall hbefore
    refine (isValid_of_stops hheader hfound hdefinition hsized hstops).resolve_right fun hat => ?_
    exact hmeets ⟨fun h0 => hbytes (.inl h0), before, x, after, q, hall, hbefore, hat⟩
  · exact (sized_of_runSteps hflags hbounded hstart (List.append_nil _).symm hsteps).valid

end Engine

/-! ### Two streams -/

namespace Engine

/-- Bytes that are no stream are left as they are. -/
theorem isValid_run_iff_malformed :
    let pipeline : FilterPipeline :=
      ⟨[.ofWords .shuffle .mandatory [4], .ofWords .deflate .mandatory [6]], 32⟩
    let registry := FilterRegistry.builtins.withLoader Plugin.overclaimingLoader
    let options : Options := ⟨.read, .empty, false, some fun _ _ => .fail⟩
    let buffer : ChunkBuffer := .ofBytes [1, 2, 3, 4]
    Compression.HasHeader ∧ (∀ step ∈ pipeline.steps, step.flags.isDefinition = true) ∧
    (∀ c, Uses options.direction pipeline registry c → c ∈ Builtin.classes) ∧ buffer.IsValid ∧
    (run pipeline options registry buffer).buffer.IsValid ∧
    ¬ MeetsEmptyStream pipeline options registry buffer := by
  intro pipeline registry options buffer
  have hflags : ∀ step ∈ pipeline.steps, step.flags.isDefinition = true := by decide
  have hcodecs : ∀ c, Uses options.direction pipeline registry c → c ∈ Builtin.classes :=
    fun c hc => FilterRegistry.mem_builtin_of_uses List.prefix_rfl (by decide) hc
  have hvalid : buffer.IsValid := ChunkBuffer.isValid_ofBytes _
  have hleft : (run pipeline options registry buffer).buffer.IsValid := by decide
  exact ⟨Compression.hasHeader_zlib, hflags, hcodecs, hvalid, hleft,
    (isValid_run_iff Compression.hasHeader_zlib hflags hcodecs hvalid).1 hleft⟩

/-- A stream that stands for no bytes leaves a count without bytes. -/
theorem not_isValid_run_emptyStream :
    let pipeline : FilterPipeline := ⟨[.ofWords .deflate .mandatory [6]], 32⟩
    let buffer : ChunkBuffer := .ofBytes [0x78, 0x9c, 0x03, 0x00, 0x00, 0x00, 0x00, 0x01]
    let left := (run pipeline .read FilterRegistry.builtins buffer).buffer
    buffer.IsValid ∧ left = ⟨[], 8⟩ ∧ ¬ left.IsValid := by
  decide +kernel

end Engine

end FilteredChunks
