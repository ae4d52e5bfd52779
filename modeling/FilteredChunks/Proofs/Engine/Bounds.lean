import FilteredChunks.CodecTable
import FilteredChunks.Json.Records
import FilteredChunks.Proofs.Engine.Course
import FilteredChunks.Proofs.Filter.Bounds
import FilteredChunks.Sample.Plugin

/-!
# No codec is handed more than there is

A run takes over the count that a codec reports without comparing it with the buffer.  With codecs that
are bounded no harm is done: `Ready` holds before every step, and `Ends` says how a step may end then.
`ends_runSteps` carries this through a run.  What is left to go out of range are client words that a step
claims to have and has not (`restored_overlong`).

The main statement, `inRange_run`, is about codecs of which only their origin is known: built-in filters
and plugin functions that report and leave whatever they like.  Where such codecs come from is a source
that provides no others (`CodecSource.Provides`), as registries and codec tables do.
-/

namespace FilteredChunks

/-! ### What a source may provide -/

/-- The sources that loading makes of a source. -/
inductive CodecSource.Leads {σ : Type} [CodecSource σ] (source : σ) : σ → Prop
  | refl : Leads source source
  | load {s : σ} (h : Leads source s) (step : FilterStep) : Leads source (CodecSource.load s step).source

/-- A source knows a class or can load it, now or after it has loaded others. -/
def CodecSource.Provides {σ : Type} [CodecSource σ] (source : σ) (c : FilterClass) : Prop :=
  ∃ s, Leads source s ∧ ((∃ index step, CodecSource.codec s index step = some c) ∨
    ∃ step, (CodecSource.load s step).result = .ok (some c))

theorem CodecTable.provides {t : CodecTable} {c : FilterClass} (h : CodecSource.Provides t c) :
    c ∈ t.classes := by
  have hsame : ∀ s, CodecSource.Leads t s → s = t := by
    intro s hs
    induction hs with
    | refl => rfl
    | load _ _ ih => exact ih
  obtain ⟨s, hs, ⟨index, step, hc⟩ | ⟨step, hl⟩⟩ := h
  · obtain rfl := hsame s hs
    exact List.mem_of_getElem? (Option.filter_eq_some_iff.1 hc).1
  · cases hl

namespace FilterRegistry

theorem mem_insert {r : FilterRegistry} {c c' : FilterClass} (h : c' ∈ (r.insert c).classes) :
    c' ∈ r.classes ∨ c' = c := by
  unfold insert at h
  split at h
  · exact List.mem_or_eq_of_mem_set h
  · simpa using h

theorem mem_loadPlugin {r : FilterRegistry} {id : FilterId} {c : FilterClass}
    (h : c ∈ (r.loadPlugin id).registry.classes) :
    c ∈ r.classes ∨ ∃ loader, r.loader = some loader ∧ loader.load id = some c := by
  unfold loadPlugin at h
  split at h
  · exact .inl h
  next loader hloader =>
  split at h
  · exact .inl h
  next c₁ hload =>
  unfold enter at h
  split at h
  · exact .inl h
  · rcases mem_insert h with h | rfl
    · exact .inl h
    · exact .inr ⟨loader, hloader, hload⟩

theorem loadPlugin_eq_ok {r : FilterRegistry} {id : FilterId} {c : FilterClass}
    (h : (r.loadPlugin id).result = .ok (some c)) :
    ∃ loader, r.loader = some loader ∧ loader.load id = some c := by
  unfold loadPlugin at h
  split at h
  · cases h
  next loader hloader =>
  split at h
  · cases h
  next c₁ hload =>
  dsimp only at h
  cases hentered : (r.enter c₁).result with
  | error error => rw [hentered] at h; cases h
  | ok _ =>
    rw [hentered] at h
    cases h
    exact ⟨loader, hloader, hload⟩

theorem loader_loadPlugin (r : FilterRegistry) (id : FilterId) :
    (r.loadPlugin id).registry.loader = r.loader := by
  unfold loadPlugin enter insert
  split
  · rfl
  split
  · rfl
  dsimp only
  split
  · rfl
  · split <;> rfl

theorem provides {r : FilterRegistry} {c : FilterClass} (h : CodecSource.Provides r c) :
    c ∈ r.classes ∨ ∃ loader id, r.loader = some loader ∧ loader.load id = some c := by
  have hleads : ∀ s, CodecSource.Leads r s → s.loader = r.loader ∧ ∀ c ∈ s.classes,
      c ∈ r.classes ∨ ∃ loader id, r.loader = some loader ∧ loader.load id = some c := by
    intro s hs
    induction hs with
    | refl => exact ⟨rfl, fun c hc => .inl hc⟩
    | @load s _ step ih =>
      refine ⟨(loader_loadPlugin s step.id).trans ih.1, fun c hc => ?_⟩
      rcases mem_loadPlugin hc with hc | ⟨loader, hloader, hload⟩
      · exact ih.2 c hc
      · exact .inr ⟨loader, step.id, ih.1 ▸ hloader, hload⟩
  obtain ⟨s, hs, ⟨index, step, hc⟩ | ⟨step, hl⟩⟩ := h
  · exact (hleads s hs).2 c (List.mem_of_find?_eq_some hc)
  · obtain ⟨loader, hloader, hload⟩ := loadPlugin_eq_ok hl
    exact .inr ⟨loader, step.id, (hleads s hs).1 ▸ hloader, hload⟩

end FilterRegistry

theorem Plugin.probe_eq_some_iff {dir : String} {id : FilterId} {file : LibraryFile} {c : FilterClass} :
    probe dir id file = .ok (some c) ↔ ∃ library descriptor, file.library = some library ∧
      library.pluginType = some filterType ∧ library.info = some descriptor ∧
      classOf (PathName.join dir file.name) descriptor = .ok c ∧ c.id = id := by
  constructor
  · intro h
    unfold probe at h
    dsimp only at h
    split at h
    · cases h
    next library hopens =>
    split at h
    · cases h
    next type htype =>
    split at h
    · cases h
    next hfilter =>
    split at h
    · cases h
    next descriptor hinfo =>
    rw [Decidable.not_not.1 hfilter] at htype
    rcases hclass : classOf (PathName.join dir file.name) descriptor with error | found
    · rw [hclass] at h
      cases h
    rw [hclass] at h
    dsimp only [Except.map] at h
    split at h
    · next hid =>
      cases h
      exact ⟨library, descriptor, hopens, htype, hinfo, hclass, hid⟩
    · cases h
  · rintro ⟨library, descriptor, hopens, htype, hinfo, hclass, hid⟩
    simp [probe, hopens, htype, hinfo, hclass, Except.map, hid]

theorem Plugin.exists_probe_of_load {loader : Loader} {id : FilterId} {c : FilterClass}
    (h : loader.load id = some c) : ∃ dir file, probe dir id file = .ok (some c) := by
  obtain ⟨dir, -, h⟩ := List.exists_of_findSome?_eq_some h
  split at h
  · obtain ⟨file, -, h⟩ := List.exists_of_findSome?_eq_some h
    unfold probed? at h
    split at h
    · next found hfound =>
      subst h
      exact ⟨dir, file, hfound⟩
    · cases h
  · cases h

theorem Plugin.isGuarded_of_load [Compression] {loader : Loader} {id : FilterId} {c : FilterClass}
    (h : loader.load id = some c) : c.codec.IsGuarded := by
  obtain ⟨dir, file, hprobe⟩ := exists_probe_of_load h
  obtain ⟨-, descriptor, -, -, -, hclass, -⟩ := probe_eq_some_iff.1 hprobe
  exact isGuarded_of_classOf hclass

namespace Engine

variable {σ : Type}

/-! ### Calls in range -/

/-- A codec gets no more valid bytes than the buffer has, and on write some. -/
def Event.InRange (direction : Direction) : Event → Prop
  | .call _ _ _ _ nbytes size => nbytes ≤ size ∧ (direction = .write → 0 < nbytes)
  | _ => True

theorem Options.contains_reverse {options : Options} (h : options.direction = .read)
    (flags : FilterFlags) : (flags ||| options.callFlags).contains .reverse = true := by
  rw [Options.callFlags, h]
  dsimp only
  split
  · exact FilterFlags.contains_reverse_or flags
  · have hor : flags ||| (FilterFlags.reverse ||| .skipChecks) =
        (flags ||| .skipChecks) ||| .reverse :=
      congrArg FilterFlags.mk ((BitVec.or_assoc ..).trans
        (congrArg (flags.bits ||| ·) (BitVec.or_comm ..))).symm
    rw [hor]
    exact FilterFlags.contains_reverse_or _

variable [CodecSource σ]

/-- What holds before every step of a run: the count is within the buffer, on write something counts,
and all calls so far were in range. -/
structure Ready (options : Options) (source : σ) (p : Progress σ) : Prop where
  leads : CodecSource.Leads source p.source
  calls : ∀ e ∈ p.events, e.InRange options.direction
  valid : p.buffer.IsValid
  pos : options.direction = .write → 0 < p.buffer.nbytes

/-- The last thing asked for is the class of a step. -/
def LastAsked (events : List Event) (x : FilterStep × Nat) : Prop :=
  events.getLast? = some (.lookup x.2 x.1.id) ∨ events.getLast? = some (.load x.1.id)

/-- How a step may end: with all calls in range, ready for the next one if the run goes on, and in a
crash only if its class has just been found and its client words cannot be read. -/
structure Ends (options : Options) (source : σ) (x : FilterStep × Nat) (stage : Stage σ Unit) :
    Prop where
  crash : stage.1 = .error .crash → ¬ x.1.IsReadable ∧ LastAsked stage.2.events x
  calls : ∀ e ∈ stage.2.events, e.InRange options.direction
  ready : stage.1 = .ok () → Ready options source stage.2

variable {options : Options} {source : σ} {index : Nat} {step : FilterStep} {p : Progress σ}
  {x : FilterStep × Nat}

theorem Ready.ends (h : Ready options source p) : Ends options source x (.ok (), p) :=
  ⟨nofun, h.calls, fun _ => h⟩

theorem ends_failure (calls : ∀ e ∈ p.events, e.InRange options.direction) (error : FilterError) :
    Ends options source x (.error (.failure error), p) :=
  ⟨fun h => (nomatch Except.error.inj h), calls, nofun⟩

theorem ends_crash (calls : ∀ e ∈ p.events, e.InRange options.direction) (hread : ¬ x.1.IsReadable)
    (hlast : LastAsked p.events x) : Ends options source x (.error .crash, p) :=
  ⟨fun _ => ⟨hread, hlast⟩, calls, nofun⟩

omit [CodecSource σ] in
theorem inRange_note (calls : ∀ e ∈ p.events, e.InRange options.direction) {e : Event}
    (he : e.InRange options.direction) :
    ∀ e' ∈ (p.note e).events, e'.InRange options.direction := by
  intro e' he'
  rcases List.mem_append.1 he' with he' | he'
  · exact calls e' he'
  · rw [List.mem_singleton.1 he']
    exact he

theorem Ready.note (h : Ready options source p) {e : Event} (he : e.InRange options.direction) :
    Ready options source (p.note e) :=
  ⟨h.leads, inRange_note h.calls he, h.valid, h.pos⟩

theorem Ready.skip (h : Ready options source p) (index : Nat) :
    Ready options source (p.skip index) :=
  ⟨h.leads, h.calls, h.valid, h.pos⟩

theorem Ready.leave (h : Ready options source p) {data : Bytes} {n : Nat} (hle : n ≤ data.length)
    (hpos : options.direction = .write → 0 < n) : Ready options source (p.leave data n) :=
  ⟨h.leads, h.calls, hle, hpos⟩

/-! ### A step -/

theorem ends_consult (leads : CodecSource.Leads source p.source)
    (calls : ∀ e ∈ p.events, e.InRange options.direction)
    (hpos : options.direction = .write → p.buffer.data ≠ []) (id : FilterId) (seen : Bytes)
    (fault : FilterError) : Ends options source x (consult options index id seen fault p) := by
  unfold consult
  split
  · exact ends_failure calls _
  have hnoted : ∀ e ∈ (p.note (.callback id seen)).events, e.InRange options.direction :=
    inRange_note calls trivial
  dsimp only
  split
  · exact ends_failure hnoted _
  · exact Ready.ends ⟨leads, hnoted, Nat.le_refl _, fun hw => List.length_pos_iff.2 (hpos hw)⟩

theorem ends_failedWrite (h : Ready options source p) (hw : options.direction = .write) :
    Ends options source x (failedWrite options index step p) := by
  unfold failedWrite
  split
  · exact (h.skip index).ends
  have hdata : 0 < p.buffer.data.length := Nat.lt_of_lt_of_le (h.pos hw) h.valid
  dsimp only
  split
  · next hnone =>
    rw [h.valid.valid?_eq] at hnone
    cases hnone
  · exact ends_consult h.leads h.calls (fun _ => List.length_pos_iff.1 hdata) _ _ _

theorem ends_callCodec {c : FilterClass} (h : Ready options source p)
    (hlast : LastAsked p.events (step, index)) (hflags : step.flags.isDefinition = true)
    (hc : c.codec.IsBounded) :
    Ends options source (step, index) (callCodec options index step c p) := by
  by_cases hread : step.IsReadable
  case neg =>
    rw [callCodec, FilterStep.words?_eq_none_iff.2 hread]
    exact ends_crash h.calls hread hlast
  have hcalled : Ready options source (p.noteCall c (step.flags ||| options.callFlags) step.words) :=
    h.note ⟨h.valid, h.pos⟩
  rw [callCodec, hread.words?_eq]
  dsimp only
  cases hdirection : options.direction with
  | write =>
    rw [Options.callFlags_write hdirection] at hcalled ⊢
    obtain ⟨count, left, htransform, hfits, hkept⟩ :=
      hc.forward step.flags step.words _ _ hflags (h.pos hdirection) h.valid
    rw [htransform]
    cases count with
    | succ n => exact (hcalled.leave hfits fun _ => Nat.succ_pos n).ends
    | zero =>
      obtain rfl := hkept rfl
      exact ends_failedWrite (hcalled.leave h.valid h.pos) hdirection
  | read =>
    obtain ⟨count, left, htransform, hfits⟩ :=
      hc.backward (step.flags ||| options.callFlags) step.words _ _
        (Options.contains_reverse hdirection step.flags) h.valid
    rw [htransform]
    cases count with
    | succ n => exact (hcalled.leave hfits fun _ => Nat.succ_pos n).ends
    | zero =>
      -- the buffer may have become shorter than its count, but nobody looks at that count
      let q := (p.noteCall c (step.flags ||| options.callFlags) step.words).leave left p.buffer.nbytes
      refine ends_consult (p := q) hcalled.leads hcalled.calls (fun hw => ?_) _ _ _
      rw [hdirection] at hw
      cases hw

/-- **A step of a run that is ready ends well**, if the codecs that its source provides are bounded. -/
theorem ends_runStep (h : Ready options source p) (hflags : step.flags.isDefinition = true)
    (hcodecs : ∀ c, CodecSource.Provides source c → c.codec.IsBounded) :
    Ends options source (step, index) (runStep options index step p) := by
  have hlooked : Ready options source (p.note (.lookup index step.id)) := h.note trivial
  unfold runStep
  split
  · exact h.ends
  dsimp only
  split
  · next c hc =>
    exact ends_callCodec hlooked (.inl List.getLast?_concat) hflags
      (hcodecs c ⟨_, h.leads, .inl ⟨index, step, hc⟩⟩)
  unfold missingCodec
  split
  · split
    · exact (hlooked.skip index).ends
    · exact ends_failure hlooked.calls _
  · have hloading := hlooked.note (e := .load step.id) trivial
    have hloaded : Ready options source
        { (p.note (.lookup index step.id)).note (.load step.id) with
          source := (CodecSource.load p.source step).source
          metrics := p.metrics ++ (CodecSource.load p.source step).metrics } :=
      ⟨.load h.leads step, hloading.calls, h.valid, h.pos⟩
    dsimp only
    split
    · exact ends_failure hloaded.calls _
    · exact ends_failure hloaded.calls _
    · next c hc =>
      exact ends_callCodec hloaded (.inr List.getLast?_concat) hflags
        (hcodecs c ⟨_, h.leads, .inr ⟨step, hc⟩⟩)

/-! ### A run -/

/-- A run of steps that is ready gets on in range, and crashes at most at a step that was not marked and
whose client words cannot be read. -/
theorem ends_runSteps (hcodecs : ∀ c, CodecSource.Provides source c → c.codec.IsBounded)
    {steps : List (FilterStep × Nat)} (hsteps : ∀ x ∈ steps, x.1.flags.isDefinition = true)
    (h : Ready options source p) :
    (∀ e ∈ (runSteps options steps p).2.events, e.InRange options.direction) ∧
    ((runSteps options steps p).1 = .ok () → Ready options source (runSteps options steps p).2) ∧
    ((runSteps options steps p).1 = .error .crash → ∃ x ∈ steps, p.mask.isSet x.2 = false ∧
      ¬ x.1.IsReadable ∧ LastAsked (runSteps options steps p).2.events x) := by
  induction steps generalizing p with
  | nil =>
    refine ⟨h.calls, fun _ => h, fun hcrashed => ?_⟩
    cases hcrashed
  | cons x rest ih =>
    have hends : Ends options source x (runStep options x.2 x.1 p) :=
      ends_runStep h (hsteps x List.mem_cons_self) hcodecs
    rw [runSteps]
    split
    · next p₁ hstep =>
      rw [hstep] at hends
      obtain ⟨hcalls, hready, hcrash⟩ :=
        ih (fun y hy => hsteps y (List.mem_cons_of_mem x hy)) (hends.ready rfl)
      refine ⟨hcalls, hready, fun hcrashed => ?_⟩
      obtain ⟨y, hy, hunset, hrest⟩ := hcrash hcrashed
      refine ⟨y, List.mem_cons_of_mem x hy, ?_, hrest⟩
      -- what is marked stays marked
      by_contra hset
      rw [(passes_of_runStep hstep).isSet (by simpa using hset)] at hunset
      cases hunset
    · next fault p₁ hstep =>
      rw [hstep] at hends
      refine ⟨hends.calls, fun hok => ?_, fun hcrashed => ⟨x, List.mem_cons_self, ?_, ?_⟩⟩
      · cases hok
      · by_contra hset
        rw [runStep_masked (by simpa using hset)] at hstep
        cases hstep
      · exact hends.crash (by rw [Except.error.inj hcrashed])

/-- What a run keeps to.  Every codec is called in range, and the bytes that a write leaves can be taken.
The only slice taken that is not there, which is a crash, is that of client words which cannot be read,
for a call of the codec of a step that is not left out. -/
structure Run.InRange (pipeline : FilterPipeline) (options : Options) (r : Run σ) : Prop where
  crash : r.result = .error .crash → ∃ x ∈ pipeline.steps.zipIdx, options.exclude.isSet x.2 = false ∧
    ¬ x.1.IsReadable ∧ LastAsked r.events x
  calls : ∀ e ∈ r.events, e.InRange options.direction
  stored : options.direction = .write → ∀ outcome, r.result = .ok outcome →
    r.buffer.valid? = some r.buffer.toBytes

theorem inRange_of_isBounded {pipeline : FilterPipeline} {buffer : ChunkBuffer}
    (hcodecs : ∀ c, CodecSource.Provides source c → c.codec.IsBounded)
    (hflags : ∀ step ∈ pipeline.steps, step.flags.isDefinition = true) (hbuffer : buffer.IsValid) :
    Run.InRange pipeline options (run pipeline options source buffer) := by
  unfold run
  split
  · exact ⟨nofun, by simp, fun _ _ _ => hbuffer.valid?_eq⟩
  split
  · exact ⟨fun h => (nomatch Except.error.inj h), by simp, nofun⟩
  next hbytes =>
  have hready : Ready options source ⟨buffer, options.exclude, source, [], []⟩ :=
    ⟨.refl, by simp, hbuffer, fun _ => Nat.pos_of_ne_zero fun h0 => hbytes (.inl h0)⟩
  have hsteps : ∀ x ∈ ordered options.direction pipeline.steps, x.1.flags.isDefinition = true :=
    fun x hx => hflags x.1 (List.mem_of_getElem? (mem_ordered_iff.1 hx))
  obtain ⟨hcalls, hend, hcrash⟩ := ends_runSteps hcodecs hsteps hready
  generalize runSteps options (ordered options.direction pipeline.steps)
    ⟨buffer, options.exclude, source, [], []⟩ = stage at *
  obtain ⟨_ | ⟨⟩, p⟩ := stage
  · next fault =>
    refine ⟨fun h => ?_, hcalls, nofun⟩
    obtain ⟨x, hx, hx'⟩ := hcrash (by rw [Except.error.inj h])
    exact ⟨x, List.mem_zipIdx_iff_getElem?.2 (mem_ordered_iff.1 hx), hx'⟩
  · exact ⟨nofun, hcalls, fun _ _ _ => (hend rfl).valid.valid?_eq⟩

/-! ### Main statement -/

/-- **No codec is handed more than there is.**  Of any steps with built-in filters and plugin functions,
whatever the functions report and leave: every run over a valid buffer stays in range, under any
options; and decoding any bytes with any mask ends with bytes or with a failure, if the client words of
the steps that are not masked can be read. -/
theorem inRange_run [Compression] (hheader : Compression.HasHeader) {pipeline : FilterPipeline}
    (hflags : ∀ step ∈ pipeline.steps, step.flags.isDefinition = true) {source : σ}
    (hcodecs : ∀ c, CodecSource.Provides source c → c.codec.IsGuarded) :
    (∀ options buffer, buffer.IsValid →
      Run.InRange pipeline options (run pipeline options source buffer)) ∧
    ∀ stored mask, (∀ x ∈ pipeline.steps.zipIdx, mask.isSet x.2 = false → x.1.IsReadable) →
      (∃ data, (decode pipeline source stored mask).restored = .ok data) ∨
        ∃ error, (decode pipeline source stored mask).restored = .error (.failure error) := by
  have hbounded : ∀ c, CodecSource.Provides source c → c.codec.IsBounded :=
    fun c hc => Codec.isBounded_of_isGuarded hheader (hcodecs c hc)
  refine ⟨fun options buffer hbuffer => inRange_of_isBounded hbounded hflags hbuffer,
    fun stored mask hread => ?_⟩
  have hrun : Run.InRange pipeline { Options.read with exclude := mask }
      (decode pipeline source stored mask) :=
    inRange_of_isBounded hbounded hflags (ChunkBuffer.isValid_ofBytes stored)
  unfold Run.restored
  cases hresult : (decode pipeline source stored mask).result with
  | ok outcome => exact .inl ⟨_, rfl⟩
  | error fault =>
    cases fault with
    | failure error => exact .inr ⟨error, rfl⟩
    | crash =>
      obtain ⟨x, hx, hunset, hunread, -⟩ := hrun.crash hresult
      exact absurd (hread x hx hunset) hunread

end Engine

/-! ### Sources with plugins -/

theorem FilterRegistry.isGuarded_of_provides [Compression] (loader : Plugin.Loader) {c : FilterClass}
    (h : CodecSource.Provides (FilterRegistry.builtins.withLoader loader) c) : c.codec.IsGuarded := by
  rcases provides h with h | ⟨loader, id, -, hload⟩
  · exact .builtin h
  · exact Plugin.isGuarded_of_load hload

theorem Plugin.isGuarded_of_knownPlugin [Compression] {plugin : KnownPlugin} {dir : String}
    {tree : LibraryTree} {c : FilterClass} (h : plugin.load dir tree = .ok c) :
    c.codec.IsGuarded := by
  unfold KnownPlugin.load at h
  dsimp only at h
  split at h
  · cases h
  split at h
  · cases h
  split at h
  · cases h
  next c₁ hclass =>
  split at h
  · cases h
    exact isGuarded_of_classOf hclass
  · cases h

theorem CodecTable.exists_of_mem_resolveSteps [Compression] {mode : OpenMode} {dir : String}
    {tree : Plugin.LibraryTree} {r : FilterRegistry} {steps : List (FilterStep × Nat)}
    {classes : List FilterClass} (h : resolveSteps mode dir tree r steps = .ok classes)
    {c : FilterClass} (hc : c ∈ classes) : ∃ step, resolveStep step dir tree r = .ok c := by
  induction steps generalizing classes with
  | nil =>
    cases h
    cases hc
  | cons x rest ih =>
    obtain ⟨step, index⟩ := x
    unfold resolveSteps at h
    split at h
    · cases h
    next c₁ hstep =>
    split at h
    · cases h
    next c₂ hmode =>
    obtain rfl : c₂ = c₁ := by
      unfold checkMode at hmode
      cases mode <;> dsimp only at hmode <;> split at hmode <;> cases hmode <;> rfl
    cases hrest : resolveSteps mode dir tree r rest with
    | error error => rw [hrest] at h; cases h
    | ok others =>
      rw [hrest] at h
      cases h
      rcases List.mem_cons.1 hc with rfl | hc
      · exact ⟨step, hstep⟩
      · exact ih hrest hc

theorem CodecTable.isGuarded_of_resolve [Compression] {p : FilterPipeline} {mode : OpenMode}
    {dir : String} {tree : Plugin.LibraryTree} {r : FilterRegistry} {t : CodecTable}
    (h : resolve p mode dir tree r = .ok t) (hr : ∀ c ∈ r.classes, c.codec.IsGuarded)
    {c : FilterClass} (hc : CodecSource.Provides t c) : c.codec.IsGuarded := by
  unfold resolve at h
  cases hsteps : resolveSteps mode dir tree r p.steps.zipIdx with
  | error error => rw [hsteps] at h; cases h
  | ok classes =>
    rw [hsteps] at h
    cases h
    obtain ⟨step, hstep⟩ := exists_of_mem_resolveSteps hsteps (provides hc)
    unfold resolveStep at hstep
    split at hstep
    · exact Plugin.isGuarded_of_knownPlugin hstep
    split at hstep
    · next c₁ hfind =>
      cases hstep
      exact .builtin (List.mem_of_find?_eq_some hfind)
    split at hstep
    · next c₁ hget =>
      cases hstep
      exact hr _ (List.mem_of_find?_eq_some hget)
    · cases hstep

theorem Compression.hasHeader_zlib : Compression.HasHeader := by
  intro level bytes output _ h
  cases h
  simp [Deflate.zlibCompress, Deflate.zlibHeader]

/-- A directory with a plugin that tells of one byte more than its buffer holds. -/
def Plugin.overclaimingLoader : Plugin.Loader where
  dirs := ["plugins"]
  tree _ := some [{
    name := "libover.so"
    library := some {
      pluginType := some Plugin.filterType
      info := some (some ⟨Plugin.descriptorVersion, 300, true, true, none,
        some SampleFilter.overclaiming.run⟩)
      symbols := [] } }]

theorem Engine.inRange_run_overclaiming :
    let pipeline : FilterPipeline := ⟨[.ofWords .shuffle .mandatory [4],
      .ofWords 300 .mandatory [], .ofWords .fletcher32 .mandatory []], 32⟩
    let registry := FilterRegistry.builtins.withLoader Plugin.overclaimingLoader
    let options : Engine.Options := ⟨.read, .empty, true, some fun _ _ => .continue⟩
    Compression.HasHeader ∧ (∀ step ∈ pipeline.steps, step.flags.isDefinition = true) ∧
    (∀ c, CodecSource.Provides registry c → c.codec.IsGuarded) ∧
    (ChunkBuffer.ofBytes [1, 2, 3, 4, 5, 6, 7, 8]).IsValid ∧
    (∀ x ∈ pipeline.steps.zipIdx, FilterMask.empty.isSet x.2 = false → x.1.IsReadable) ∧
    Engine.Run.InRange pipeline options
      (Engine.run pipeline options registry (.ofBytes [1, 2, 3, 4, 5, 6, 7, 8])) ∧
    ((∃ data, (Engine.decode pipeline registry [1, 2, 3, 4, 5, 6, 7, 8] .empty).restored =
        .ok data) ∨
      ∃ error, (Engine.decode pipeline registry [1, 2, 3, 4, 5, 6, 7, 8] .empty).restored =
        .error (.failure error)) := by
  intro pipeline registry options
  have hflags : ∀ step ∈ pipeline.steps, step.flags.isDefinition = true := by decide
  have hcodecs : ∀ c, CodecSource.Provides registry c → c.codec.IsGuarded :=
    fun c hc => FilterRegistry.isGuarded_of_provides _ hc
  have hvalid := ChunkBuffer.isValid_ofBytes [1, 2, 3, 4, 5, 6, 7, 8]
  have hread : ∀ x ∈ pipeline.steps.zipIdx, FilterMask.empty.isSet x.2 = false →
      x.1.IsReadable := by decide
  obtain ⟨hruns, hdecodes⟩ := Engine.inRange_run Compression.hasHeader_zlib hflags hcodecs
  exact ⟨Compression.hasHeader_zlib, hflags, hcodecs, hvalid, hread, hruns options _ hvalid,
    hdecodes _ _ hread⟩

/-- A step that tells of five words in four slots. -/
def FilterStep.overlong : FilterStep := ⟨.shuffle, .mandatory, none, .inline 5 #v[1, 2, 3, 4]⟩

/-- Such a step is read from a text and taken into a pipeline; then decoding is a crash. -/
theorem Engine.restored_overlong :
    (Json.parse? "\x7b\"id\":2,\"flags\":0,\"name\":null,\"client_data\":\x7b\"Inline\":\x7b\"len\":5,\"values\":[1,2,3,4]\x7d\x7d\x7d").bind
      Json.step? = some .overlong ∧
    FilterPipeline.empty.push .overlong = .ok ⟨[.overlong], 32⟩ ∧
    (∀ c, CodecSource.Provides FilterRegistry.builtins c → c.codec.IsGuarded) ∧
    (Engine.decode ⟨[.overlong], 32⟩ FilterRegistry.builtins [1, 2] .empty).restored =
      .error .crash := by
  refine ⟨by decide +kernel, by decide +kernel, fun c hc => ?_, by rfl⟩
  rcases FilterRegistry.provides hc with hc | ⟨loader, id, hnone, -⟩
  · exact .builtin hc
  · cases hnone

end FilteredChunks
