import FilteredChunks.Command.Run
import FilteredChunks.Proofs.Engine.Accepting
import FilteredChunks.Proofs.Pipeline.Built

/-!
# Preparing a write with built-in filters

With no filter but built-in ones, a command asks no plugin for anything: every filter is appended
(`assemble_of_builtin`), none objects to the data and shuffling is told the size of an element
(`prepare_of_builtin`), and every step is found again for writing and for reading
(`resolve_of_builtin`).  So a command whose file can be made is ready for its chunks, and no chunk can
fail (`prepareWrite_of_builtin`).
-/

namespace FilteredChunks

/-! ### Resolving -/

/-- A number under which a built-in filter is found, and no well-known plugin. -/
structure Builtin.Serves [Compression] (id : FilterId) (c : FilterClass) : Prop where
  found : find? id = some c
  notPlugin : Plugin.knownPlugin? id = none

namespace Builtin.Serves

variable [Compression] {id : FilterId} {c : FilterClass}

theorem mem (h : Serves id c) : c ∈ classes := List.mem_of_find?_eq_some h.found

theorem id_eq (h : Serves id c) : c.id = id := by
  have hfound : classes.find? (fun c => c.id == id) = some c := h.found
  simpa using List.find?_some hfound

theorem checkMode (h : Serves id c) (mode : OpenMode) : CodecTable.checkMode mode c = .ok c := by
  have hmem := h.mem
  simp only [classes, List.mem_cons, List.not_mem_nil, or_false] at hmem
  rcases hmem with rfl | rfl | rfl
  all_goals
    cases mode
    · rfl
    · rfl

end Builtin.Serves

namespace CodecTable

variable [Compression]

theorem resolveSteps_of_builtin (mode : OpenMode) (dir : String) (tree : Plugin.LibraryTree)
    (r : FilterRegistry) {steps : List (FilterStep × Nat)}
    (h : ∀ x ∈ steps, ∃ c, Builtin.Serves x.1.id c) :
    ∃ classes, resolveSteps mode dir tree r steps = .ok classes ∧
      classes.map some = steps.map fun x => Builtin.find? x.1.id := by
  induction steps with
  | nil => exact ⟨[], rfl, rfl⟩
  | cons x steps ih =>
    obtain ⟨c, hc⟩ := h x List.mem_cons_self
    obtain ⟨classes, hclasses, hmap⟩ := ih fun y hy => h y (List.mem_cons_of_mem x hy)
    refine ⟨c :: classes, ?_, ?_⟩
    · obtain ⟨step, index⟩ := x
      rw [resolveSteps, resolveStep, hc.notPlugin]
      dsimp only
      rw [hc.found]
      dsimp only
      rw [hc.checkMode mode, hclasses]
      rfl
    · rw [List.map_cons, List.map_cons, hc.found, hmap]

/-- **Steps with built-in filters are found, whatever the mode and the plugins there are.** -/
theorem resolve_of_builtin {p : FilterPipeline} (h : ∀ step ∈ p.steps, ∃ c, Builtin.Serves step.id c)
    (mode : OpenMode) (dir : String) (tree : Plugin.LibraryTree) (r : FilterRegistry) :
    ∃ t, resolve p mode dir tree r = .ok t ∧ t.mode = mode ∧ t.classes.length = p.length ∧
      ∀ x ∈ p.steps.zipIdx, CodecSource.codec t x.2 x.1 = Builtin.find? x.1.id := by
  have hsteps : ∀ x ∈ p.steps.zipIdx, ∃ c, Builtin.Serves x.1.id c := by
    intro x hx
    exact h x.1 (List.mem_of_getElem? (List.mem_zipIdx_iff_getElem?.1 hx))
  obtain ⟨classes, hclasses, hmap⟩ := resolveSteps_of_builtin mode dir tree r hsteps
  refine ⟨⟨mode, classes⟩, by rw [resolve, hclasses]; rfl, rfl, ?_, ?_⟩
  · have hlength := congrArg List.length hmap
    rwa [List.length_map, List.length_map, List.length_zipIdx] at hlength
  · intro x hx
    have hat : classes[x.2]? = Builtin.find? x.1.id := by
      have hx' : p.steps.zipIdx[x.2]? = some x := by
        rw [List.getElem?_zipIdx, List.mem_zipIdx_iff_getElem?.1 hx, Nat.zero_add]
        rfl
      obtain ⟨c, hc⟩ := hsteps x hx
      have hget := congrArg (fun l => l[x.2]?) hmap
      simp only [List.getElem?_map, hx', Option.map_some, hc.found] at hget
      obtain ⟨c', hc', hsome⟩ := Option.map_eq_some_iff.1 hget
      rw [hc', hsome, hc.found]
    obtain ⟨c, hc⟩ := hsteps x hx
    show (classes[x.2]?).filter (fun c => c.id == x.1.id) = _
    rw [hat, hc.found, Option.filter_some, hc.id_eq, beq_self_eq_true, if_pos rfl]

end CodecTable

namespace Command

/-! ### The steps of a request -/

/-- The step that a request appends for a filter. -/
def appendedStep (request : WriteRequest) (choice : FilterChoice) : FilterStep :=
  .ofWords choice.id .mandatory (settingOf request choice).toList

/-- The same step when it is tuned to four-byte elements. -/
def tunedStep (request : WriteRequest) : FilterChoice → FilterStep
  | .shuffle => (appendedStep request .shuffle).withWords [UInt32.ofNat Datatype.int32.size]
  | choice => appendedStep request choice

theorem exists_serves [Compression] {choice : FilterChoice} (h : choice.isPlugin = false) :
    ∃ c, Builtin.Serves choice.id c ∧ c.encoder = true ∧
      ∀ target, c.codec.canApply target = .ok true := by
  cases choice with
  | shuffle => exact ⟨Shuffle.filterClass, ⟨rfl, rfl⟩, rfl, fun _ => rfl⟩
  | deflate => exact ⟨DeflateFilter.filterClass, ⟨rfl, rfl⟩, rfl, fun _ => rfl⟩
  | fletcher32 => exact ⟨Fletcher32.filterClass, ⟨rfl, rfl⟩, rfl, fun _ => rfl⟩
  | lz4 => cases h
  | zstd => cases h

theorem id_tunedStep (request : WriteRequest) (choice : FilterChoice) :
    (tunedStep request choice).id = choice.id := by
  cases choice <;> rfl

theorem flags_tunedStep (request : WriteRequest) (choice : FilterChoice) :
    (tunedStep request choice).flags = .mandatory := by
  cases choice <;> rfl

theorem isReadable_tunedStep (request : WriteRequest) (choice : FilterChoice) :
    (tunedStep request choice).IsReadable := by
  cases choice
  case shuffle => exact FilterStep.isReadable_withWords ..
  all_goals exact FilterStep.isReadable_ofWords ..

theorem isDefinition_mandatory : FilterFlags.mandatory.isDefinition = true := by decide

/-- **All filters are appended**, if none is a plugin and there are not too many. -/
theorem assemble_of_builtin (request : WriteRequest) {choices : List FilterChoice}
    (hchoices : ∀ choice ∈ choices, choice.isPlugin = false) {pipeline : FilterPipeline}
    (hlength : pipeline.length + choices.length ≤ FilterPipeline.maxSteps) (r : FilterRegistry)
    (lines : List Line) :
    ∃ p lines', assemble request choices pipeline r lines = ⟨.ok p, r, lines'⟩ ∧
      p.steps = pipeline.steps ++ choices.map (appendedStep request) := by
  induction choices generalizing pipeline lines with
  | nil => exact ⟨pipeline, lines, rfl, (List.append_nil _).symm⟩
  | cons choice choices ih =>
    have hchoice := hchoices choice List.mem_cons_self
    have hid : choice.id.isValid = true := by cases choice <;> rfl
    have hroom : pipeline.length < FilterPipeline.maxSteps := by
      rw [List.length_cons] at hlength
      omega
    obtain ⟨p', hp', hsteps⟩ : ∃ p', pipeline.push (appendedStep request choice) = .ok p' ∧
        p'.steps = pipeline.steps ++ [appendedStep request choice] :=
      FilterPipeline.exists_push hid isDefinition_mandatory hroom
    have hlength' : p'.length + choices.length ≤ FilterPipeline.maxSteps := by
      rw [FilterPipeline.length, hsteps, List.length_append, List.length_singleton]
      rw [List.length_cons, FilterPipeline.length] at hlength
      omega
    obtain ⟨p, lines', hp, hall⟩ := ih (fun c hc => hchoices c (List.mem_cons_of_mem _ hc)) hlength'
      (lines ++ [appliedLine choice (settingOf request choice)])
    refine ⟨p, lines', ?_, ?_⟩
    · rw [assemble, hchoice]
      rw [if_neg Bool.false_ne_true]
      dsimp only
      rw [show pipeline.append choice.id .mandatory (settingOf request choice).toList = .ok p' from hp']
      exact hp
    · rw [hall, hsteps, List.map_cons, List.append_assoc]
      rfl

/-! ### Gating -/

/-- A registry in which look-ups find the built-in filters, as they do in that of any command. -/
def HasBuiltins [Compression] (r : FilterRegistry) : Prop :=
  ∀ id c, Builtin.Serves id c → r.get? id = some c

theorem hasBuiltins_registryOf [Compression] (env : Environment) : HasBuiltins (registryOf env) := by
  intro id c h
  have hclasses : (registryOf env).classes = Builtin.classes := rfl
  rw [FilterRegistry.get?, hclasses]
  exact h.found

variable [Compression] {r : FilterRegistry} {request : WriteRequest} {choices : List FilterChoice}

theorem find_of_hasBuiltins (hr : HasBuiltins r) {id : FilterId} {c : FilterClass}
    (h : Builtin.Serves id c) (speculative : Bool) : r.find id speculative = .ok (some c) := by
  rw [FilterRegistry.find, hr id c h]

theorem askSteps_of_builtin (hr : HasBuiltins r) (target : Target) {steps : List (FilterStep × Nat)}
    (hsteps : ∀ x ∈ steps, ∃ c, Builtin.Serves x.1.id c ∧ c.encoder = true ∧
      c.codec.canApply target = .ok true) (mask : FilterMask) :
    (Gating.askSteps r target steps mask).1 = .ok mask := by
  induction steps with
  | nil => rfl
  | cons x steps ih =>
    obtain ⟨step, index⟩ := x
    obtain ⟨c, hc, hencoder, hfits⟩ := hsteps _ List.mem_cons_self
    have hrest := ih fun y hy => hsteps y (List.mem_cons_of_mem _ hy)
    have hrefuses : Gating.refuses step c target = .ok false := by
      rw [Gating.refuses, hfits]
    rw [Gating.askSteps, find_of_hasBuiltins hr hc]
    dsimp only
    rw [hencoder, Bool.not_true, if_neg Bool.false_ne_true, hrefuses]
    exact hrest

/-- Shuffling is told the size of an element; the other filters are left alone. -/
theorem tuneSteps_of_builtin (request : WriteRequest) (hr : HasBuiltins r)
    (hchoices : ∀ choice ∈ choices, choice.isPlugin = false) (space : Dataspace) :
    (Gating.tuneSteps r (.typed .int32 space) (choices.map (appendedStep request))).result = .ok () ∧
      (Gating.tuneSteps r (.typed .int32 space) (choices.map (appendedStep request))).steps =
        choices.map (tunedStep request) := by
  induction choices with
  | nil => exact ⟨rfl, rfl⟩
  | cons choice choices ih =>
    obtain ⟨hresult, hsteps⟩ := ih fun c hc => hchoices c (List.mem_cons_of_mem _ hc)
    rw [List.map_cons, List.map_cons, Gating.tuneSteps]
    cases choice with
    | shuffle =>
      rw [find_of_hasBuiltins hr (c := Shuffle.filterClass) ⟨rfl, rfl⟩]
      exact ⟨hresult, congrArg _ hsteps⟩
    | deflate =>
      rw [find_of_hasBuiltins hr (c := DeflateFilter.filterClass) ⟨rfl, rfl⟩]
      exact ⟨hresult, congrArg _ hsteps⟩
    | fletcher32 =>
      rw [find_of_hasBuiltins hr (c := Fletcher32.filterClass) ⟨rfl, rfl⟩]
      exact ⟨hresult, congrArg _ hsteps⟩
    | lz4 => cases hchoices _ List.mem_cons_self
    | zstd => cases hchoices _ List.mem_cons_self

/-- **No filter is left out, and all are tuned.** -/
theorem prepare_of_builtin (hr : HasBuiltins r)
    (hchoices : ∀ choice ∈ choices, choice.isPlugin = false) (dims : List UInt64)
    {pipeline : FilterPipeline} (hsteps : pipeline.steps = choices.map (appendedStep request)) :
    (Gating.prepare ((DatasetCreation.chunked dims).withPipeline pipeline) .int32 r).result =
        .ok .empty ∧
      (Gating.prepare ((DatasetCreation.chunked dims).withPipeline pipeline) .int32 r).list.pipeline.steps =
        choices.map (tunedStep request) := by
  cases choices with
  | nil =>
    -- without filters nothing is asked
    have hnone : Gating.chunkTarget ((DatasetCreation.chunked dims).withPipeline pipeline) .int32 =
        none := by
      have hempty : pipeline.isEmpty = true := by
        rw [FilterPipeline.isEmpty, hsteps]
        rfl
      simp [Gating.chunkTarget, DatasetCreation.withPipeline, hempty]
    rw [Gating.prepare, Gating.canApply, Gating.setLocal, hnone]
    exact ⟨rfl, hsteps⟩
  | cons choice choices =>
    have htarget : Gating.chunkTarget ((DatasetCreation.chunked dims).withPipeline pipeline) .int32 =
        some (.typed .int32 (.simple dims)) := by
      have hempty : pipeline.isEmpty = false := by
        rw [FilterPipeline.isEmpty, hsteps]
        rfl
      simp [Gating.chunkTarget, DatasetCreation.withPipeline, DatasetCreation.chunked,
        DatasetCreation.ofLayout, DatasetCreation.chunkDims, hempty]
    have hfit : ∀ x ∈ pipeline.steps.zipIdx, ∃ c, Builtin.Serves x.1.id c ∧ c.encoder = true ∧
        c.codec.canApply (.typed .int32 (.simple dims)) = .ok true := by
      intro x hx
      have hmem := List.mem_of_getElem? (List.mem_zipIdx_iff_getElem?.1 hx)
      rw [hsteps] at hmem
      obtain ⟨choice', hchoice', hstep⟩ := List.mem_map.1 hmem
      obtain ⟨c, hc, hencoder, hfits⟩ := exists_serves (hchoices choice' hchoice')
      exact ⟨c, hstep ▸ hc, hencoder, hfits _⟩
    have hask := askSteps_of_builtin hr _ hfit .empty
    obtain ⟨htuned, htunedSteps⟩ := tuneSteps_of_builtin request hr hchoices (.simple dims)
    rw [← hsteps] at htuned htunedSteps
    rw [Gating.prepare, Gating.canApply, Gating.setLocal, htarget]
    dsimp only [Gating.tunePipeline, DatasetCreation.withPipeline]
    generalize Gating.askSteps r (.typed .int32 (.simple dims)) pipeline.steps.zipIdx .empty = asked
      at hask ⊢
    obtain ⟨result, events⟩ := asked
    dsimp only at hask
    subst hask
    dsimp only
    rw [htuned]
    exact ⟨rfl, htunedSteps⟩

/-! ### Ready for the chunks -/

theorem accepting_tunedStep (hlossless : Compression.IsLossless)
    (hlevel : request.deflateLevel.toNat ≤ DeflateFilter.maxLevel) {choice : FilterChoice}
    (hchoice : choice.isPlugin = false) {index : Nat} (hindex : index < 32) {t t' : CodecTable}
    (ht : CodecSource.codec t index (tunedStep request choice) = Builtin.find? choice.id)
    (ht' : CodecSource.codec t' index (tunedStep request choice) = Builtin.find? choice.id) :
    Engine.Accepting t t' (tunedStep request choice, index) := by
  refine ⟨hindex, flags_tunedStep request choice ▸ isDefinition_mandatory,
    isReadable_tunedStep request choice, ?_⟩
  obtain ⟨c, hc, -⟩ := exists_serves hchoice
  refine ⟨c, ht.trans hc.found, ht'.trans hc.found, Builtin.isLawful_of_mem hlossless hc.mem, ?_⟩
  have hfound := hc.found
  cases choice with
  | shuffle =>
    cases hfound
    have hwords : (tunedStep request .shuffle).words = [4] := FilterStep.words_withWords _ _
    rw [hwords]
    exact Shuffle.accepts 4 []
  | deflate =>
    cases hfound
    have hwords : (tunedStep request .deflate).words = [request.deflateLevel] :=
      ClientData.words_ofWords (settingOf request .deflate).toList
    rw [hwords]
    exact DeflateFilter.accepts hlossless hlevel
  | fletcher32 =>
    cases hfound
    exact Fletcher32.accepts _
  | lz4 => cases hchoice
  | zstd => cases hchoice

/-- Tables that are resolved for the tuned steps of a request, for writing and for reading, accept. -/
theorem accepting_of_tuned (hlossless : Compression.IsLossless)
    (hlevel : request.deflateLevel.toNat ≤ DeflateFilter.maxLevel)
    (hchoices : ∀ choice ∈ choices, choice.isPlugin = false)
    (hlength : choices.length ≤ FilterPipeline.maxSteps) {p : FilterPipeline}
    (hsteps : p.steps = choices.map (tunedStep request)) (dir : String) (tree : Plugin.LibraryTree)
    (r : FilterRegistry) :
    ∃ t, CodecTable.resolve p .write dir tree r = .ok t ∧ t.mode = .write ∧
      t.classes.length = p.length ∧
      ∀ tree', ∃ t', CodecTable.resolve p .read dir tree' r = .ok t' ∧
        ∀ x ∈ p.steps.zipIdx, Engine.Accepting t t' x := by
  have hserved : ∀ step ∈ p.steps, ∃ c, Builtin.Serves step.id c := by
    intro step hstep
    rw [hsteps] at hstep
    obtain ⟨choice, hchoice, rfl⟩ := List.mem_map.1 hstep
    obtain ⟨c, hc, -⟩ := exists_serves (hchoices choice hchoice)
    exact ⟨c, (id_tunedStep request choice).symm ▸ hc⟩
  obtain ⟨t, ht, hmode, hclasses, hfound⟩ :=
    CodecTable.resolve_of_builtin hserved .write dir tree r
  refine ⟨t, ht, hmode, hclasses, fun tree' => ?_⟩
  obtain ⟨t', ht', -, -, hfound'⟩ := CodecTable.resolve_of_builtin hserved .read dir tree' r
  refine ⟨t', ht', fun x hx => ?_⟩
  have hwrite := hfound x hx
  have hread := hfound' x hx
  have hat := List.mem_zipIdx_iff_getElem?.1 hx
  rw [hsteps, List.getElem?_map] at hat
  obtain ⟨choice, hchoice, hstep⟩ := Option.map_eq_some_iff.1 hat
  obtain ⟨hlt, -⟩ := List.getElem?_eq_some_iff.1 hchoice
  obtain ⟨step, index⟩ := x
  dsimp only at hchoice hstep hlt hwrite hread
  subst hstep
  rw [id_tunedStep] at hwrite hread
  exact accepting_tunedStep hlossless hlevel (hchoices choice (List.mem_of_getElem? hchoice))
    (Nat.lt_of_lt_of_le hlt hlength) hwrite hread

/-- A write whose filters all apply to any chunk, and are found again for reading. -/
structure ReadyWrite.Accepting (ready : ReadyWrite) : Prop where
  pipeline : ready.writer.pipeline = ready.pipeline
  length_le : ready.pipeline.length ≤ FilterPipeline.maxSteps
  exclude : ready.writer.exclude = .empty
  onFailure : ready.writer.onFailure = none
  reading : ∀ tree, ∃ codecs,
    CodecTable.resolve ready.pipeline .read ready.config.pluginDir tree ready.registry = .ok codecs ∧
      ∀ x ∈ ready.pipeline.steps.zipIdx, Engine.Accepting ready.writer.codecs codecs x

/-- A chunk file can be made, and what is in it can be made to last. -/
structure IsWritable (tree : FileTree) (output : String) (made : FileTree) : Prop where
  created : createFile tree output = (.ok (), made)
  synced : made.sync output = .ok ()

/-- **A command with built-in filters is ready for its chunks.** -/
theorem prepareWrite_of_builtin (hlossless : Compression.IsLossless)
    (hlevel : request.deflateLevel.toNat ≤ DeflateFilter.maxLevel)
    (hfilters : ∀ choice ∈ request.filters, choice.isPlugin = false)
    (hlength : request.filters.length ≤ FilterPipeline.maxSteps) {d : SyntheticDataset}
    (hshape : SyntheticDataset.make request.rows request.cols request.chunkRows request.chunkCols =
      .ok d) {env : Environment} {made : FileTree} (hfile : IsWritable env.tree request.output made) :
    ∃ ready, prepareWrite env request = .ok ready ∧ ready.dataset = d ∧
      ready.config = configOf env request.threads ∧ ready.tree = made ∧ ready.Accepting := by
  have hroom : FilterPipeline.empty.length + request.filters.length ≤ FilterPipeline.maxSteps :=
    (Nat.zero_add _).symm ▸ hlength
  obtain ⟨pipeline, lines, hassemble, hsteps⟩ :=
    assemble_of_builtin request hfilters hroom (registryOf env) []
  rw [show FilterPipeline.empty.steps = [] from rfl, List.nil_append] at hsteps
  obtain ⟨hprepared, htuned⟩ := prepare_of_builtin (hasBuiltins_registryOf env) hfilters
    [UInt64.ofNat d.chunkRows, UInt64.ofNat d.chunkCols] hsteps
  unfold prepareWrite
  rw [hshape]
  dsimp only
  rw [hassemble]
  dsimp only
  generalize Gating.prepare ((DatasetCreation.chunked
    [UInt64.ofNat d.chunkRows, UInt64.ofNat d.chunkCols]).withPipeline pipeline) .int32
    (registryOf env) = prepared at hprepared htuned ⊢
  rw [hprepared, hfile.created]
  dsimp only
  obtain ⟨codecs, hcodecs, hmode, hclasses, hreading⟩ := accepting_of_tuned hlossless hlevel hfilters
    hlength htuned (configOf env request.threads).pluginDir made.libraries (registryOf env)
  have hwriter : ChunkWriter.prepare prepared.list.pipeline (configOf env request.threads).pluginDir
      made.libraries (registryOf env) = .ok ⟨prepared.list.pipeline, codecs, .empty, none⟩ := by
    rw [ChunkWriter.prepare, hcodecs]
    dsimp only
    rw [ChunkWriter.ofTable, if_neg (not_not.2 hmode), if_neg (not_not.2 hclasses)]
  have hcount : prepared.list.pipeline.length = request.filters.length := by
    rw [FilterPipeline.length, htuned, List.length_map]
  rw [hwriter]
  exact ⟨_, rfl, rfl, rfl, rfl, rfl, hcount ▸ hlength, rfl, rfl, hreading⟩

end Command

end FilteredChunks
