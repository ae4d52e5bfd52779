import FilteredChunks.CodecTable
import Mathlib.Data.List.Forall2

/-!
# What a codec table is resolved to

`Resolves dir tree r id c` says which class a number stands for, by the three places that it may come
from, and `Unresolved` why it stands for none; of these exactly one holds (`resolveStep_eq_ok_iff`,
`resolveStep_eq_error_iff`).  A step is in order for a table if its number stands for a class that is
able to do what the table is for (`Fits`), and else it has one failure (`Misfits`).

Resolving a pipeline succeeds exactly if every step is in order, the optional ones too, and then the
table has the classes of the steps in their order; otherwise the failure is that of the first step that
is not in order.
-/

namespace FilteredChunks

namespace Plugin.KnownPlugin

/-- The library in a directory that has the name of a plugin's library. -/
def Opens (plugin : KnownPlugin) (dir : String) (tree : LibraryTree) (library : Library) : Prop :=
  ∃ files file, tree dir = some files ∧
    files.find? (fun file => file.name == plugin.library) = some file ∧ file.library = some library

/-- The class that a plugin gives: its library exports a descriptor under the plugin's symbol, and the
descriptor is one of the version that is understood, for the plugin's number, with a function. -/
inductive Gives (plugin : KnownPlugin) (dir : String) (tree : LibraryTree) : FilterClass → Prop
  | described (library : Library) (hopens : plugin.Opens dir tree library) (d : Descriptor)
      (hd : library.symbols.lookup plugin.symbol = some d) (hversion : d.version = 1)
      (hid : d.id = plugin.id) (raw : RawTransform) (hraw : d.transform = some raw) :
      Gives plugin dir tree ⟨plugin.id, d.filterName, d.encoder, d.decoder, codecOf raw,
        .library (PathName.join dir plugin.library)⟩

/-- What a descriptor may be refused for; the first of these counts. -/
inductive Refuses (plugin : KnownPlugin) (d : Descriptor) : PluginFault → Prop
  | version (h : d.version ≠ 1) : Refuses plugin d .unsupportedVersion
  | range (hversion : d.version = 1) (h : ¬ (0 ≤ d.id ∧ d.id ≤ 65535)) :
      Refuses plugin d .idOutOfRange
  | noFunction (hversion : d.version = 1) (hrange : 0 ≤ d.id ∧ d.id ≤ 65535)
      (h : d.transform = none) : Refuses plugin d .noFilterFunction
  | otherFilter (hversion : d.version = 1) (hrange : 0 ≤ d.id ∧ d.id ≤ 65535) (raw : RawTransform)
      (hraw : d.transform = some raw) (h : d.id ≠ plugin.id) : Refuses plugin d .wrongFilter

/-- Why a plugin gives no class. -/
inductive Lacks (plugin : KnownPlugin) (dir : String) (tree : LibraryTree) : FilterError → Prop
  | library (h : ∀ library, ¬ plugin.Opens dir tree library) :
      Lacks plugin dir tree (.pluginLoad (PathName.join dir plugin.library))
  | symbol (library : Library) (hopens : plugin.Opens dir tree library)
      (h : library.symbols.lookup plugin.symbol = none) :
      Lacks plugin dir tree (.pluginSymbol (PathName.join dir plugin.library) plugin.symbol)
  | refused (library : Library) (hopens : plugin.Opens dir tree library) (d : Descriptor)
      (hd : library.symbols.lookup plugin.symbol = some d) (fault : PluginFault)
      (h : Refuses plugin d fault) :
      Lacks plugin dir tree (.invalidPlugin (PathName.join dir plugin.library) fault)

variable {plugin : KnownPlugin} {dir : String} {tree : LibraryTree} {library : Library}
  {c : FilterClass} {error : FilterError}

theorem opens_iff : plugin.Opens dir tree library ↔
    ((tree dir).bind fun files => files.find? fun file => file.name == plugin.library).bind
      (·.library) = some library := by
  simp only [Opens, Option.bind_eq_some_iff]
  constructor
  · rintro ⟨files, file, hfiles, hfind, hlibrary⟩
    exact ⟨file, ⟨files, hfiles, hfind⟩, hlibrary⟩
  · rintro ⟨file, ⟨files, hfiles, hfind⟩, hlibrary⟩
    exact ⟨files, file, hfiles, hfind, hlibrary⟩

theorem isValid_of_mem (h : plugin ∈ knownPlugins) : plugin.id.isValid = true := by
  simp only [knownPlugins, List.mem_cons, List.not_mem_nil, or_false] at h
  rcases h with rfl | rfl <;> rfl

theorem load_of_gives (hplugin : plugin ∈ knownPlugins) (h : plugin.Gives dir tree c) :
    plugin.load dir tree = .ok c := by
  cases h with
  | described library hopens d hd hversion hid raw hraw =>
    have hvalid : plugin.id.isValid = true := isValid_of_mem hplugin
    unfold load
    dsimp only
    rw [opens_iff.1 hopens]
    dsimp only
    rw [hd]
    simp [classOf, hversion, descriptorVersion, hvalid, hraw, hid]

theorem load_of_lacks (h : plugin.Lacks dir tree error) : plugin.load dir tree = .error error := by
  unfold load
  dsimp only
  cases h with
  | library h =>
    have hnone : ((tree dir).bind fun files => files.find? fun file =>
        file.name == plugin.library).bind (·.library) = none :=
      Option.eq_none_iff_forall_ne_some.2 fun library hlibrary => h library (opens_iff.2 hlibrary)
    rw [hnone]
  | symbol library hopens h =>
    rw [opens_iff.1 hopens]
    dsimp only
    rw [h]
  | refused library hopens d hd fault h =>
    rw [opens_iff.1 hopens]
    dsimp only
    rw [hd]
    cases h with
    | version h => simp [classOf, descriptorVersion, h]
    | range hversion h =>
      have hvalid : d.id.isValid = false := by
        rw [← Bool.not_eq_true, FilterId.isValid_iff]
        exact h
      simp [classOf, hversion, descriptorVersion, hvalid]
    | noFunction hversion hrange h =>
      simp [classOf, hversion, descriptorVersion, FilterId.isValid_iff.2 hrange, h]
    | otherFilter hversion hrange raw hraw h =>
      simp [classOf, hversion, descriptorVersion, FilterId.isValid_iff.2 hrange, hraw, h]

theorem gives_or_lacks (plugin : KnownPlugin) (dir : String) (tree : LibraryTree) :
    (∃ c, plugin.Gives dir tree c) ∨ ∃ error, plugin.Lacks dir tree error := by
  by_cases hopens : ∃ library, plugin.Opens dir tree library
  · obtain ⟨library, hopens⟩ := hopens
    cases hd : library.symbols.lookup plugin.symbol with
    | none => exact .inr ⟨_, .symbol library hopens hd⟩
    | some d =>
      by_cases hversion : d.version = 1
      · by_cases hrange : 0 ≤ d.id ∧ d.id ≤ 65535
        · cases hraw : d.transform with
          | none => exact .inr ⟨_, .refused library hopens d hd _ (.noFunction hversion hrange hraw)⟩
          | some raw =>
            by_cases hid : d.id = plugin.id
            · exact .inl ⟨_, .described library hopens d hd hversion hid raw hraw⟩
            · exact .inr ⟨_, .refused library hopens d hd _
                (.otherFilter hversion hrange raw hraw hid)⟩
        · exact .inr ⟨_, .refused library hopens d hd _ (.range hversion hrange)⟩
      · exact .inr ⟨_, .refused library hopens d hd _ (.version hversion)⟩
  · exact .inr ⟨_, .library (not_exists.1 hopens)⟩

end Plugin.KnownPlugin

namespace CodecTable

variable [Compression]

/-- The class that a number stands for: that of a well-known plugin in the directory, a built-in one, or
one of the registry, in this order. -/
inductive Resolves (dir : String) (tree : Plugin.LibraryTree) (r : FilterRegistry) (id : FilterId) :
    FilterClass → Prop
  | plugin (plugin : Plugin.KnownPlugin) (hplugin : plugin ∈ Plugin.knownPlugins)
      (hid : plugin.id = id) (c : FilterClass) (h : plugin.Gives dir tree c) :
      Resolves dir tree r id c
  | builtin (hplugin : ∀ plugin ∈ Plugin.knownPlugins, plugin.id ≠ id) (c : FilterClass)
      (hc : c ∈ Builtin.classes) (hid : c.id = id) : Resolves dir tree r id c
  | registered (hplugin : ∀ plugin ∈ Plugin.knownPlugins, plugin.id ≠ id)
      (hbuiltin : ∀ c ∈ Builtin.classes, c.id ≠ id) (c : FilterClass) (hc : r.get? id = some c) :
      Resolves dir tree r id c

/-- Why a number stands for no class. -/
inductive Unresolved (dir : String) (tree : Plugin.LibraryTree) (r : FilterRegistry) (id : FilterId) :
    FilterError → Prop
  | plugin (plugin : Plugin.KnownPlugin) (hplugin : plugin ∈ Plugin.knownPlugins)
      (hid : plugin.id = id) (error : FilterError) (h : plugin.Lacks dir tree error) :
      Unresolved dir tree r id error
  | unknown (hplugin : ∀ plugin ∈ Plugin.knownPlugins, plugin.id ≠ id)
      (hbuiltin : ∀ c ∈ Builtin.classes, c.id ≠ id) (hr : r.get? id = none) :
      Unresolved dir tree r id (.unknownFilter id)

/-- A class is able to do what a table is for. -/
def Able (mode : OpenMode) (c : FilterClass) : Prop :=
  match mode with
  | .read => c.decoder = true
  | .write => c.encoder = true

/-- What is said of a class that is not able. -/
def inability (mode : OpenMode) (c : FilterClass) : FilterError :=
  match mode with
  | .read => .noDecoder c.id
  | .write => .noEncoder c.id

/-- A step that is in order for a table, with its class. -/
structure Fits (mode : OpenMode) (dir : String) (tree : Plugin.LibraryTree) (r : FilterRegistry)
    (step : FilterStep) (c : FilterClass) : Prop where
  resolves : Resolves dir tree r step.id c
  able : Able mode c

/-- Why a step at a position is not in order. -/
inductive Misfits (mode : OpenMode) (dir : String) (tree : Plugin.LibraryTree) (r : FilterRegistry)
    (step : FilterStep) (index : Nat) : FilterError → Prop
  | unresolved (error : FilterError) (h : Unresolved dir tree r step.id error) :
      Misfits mode dir tree r step index (error.within (.resolvingStep index))
  | unable (c : FilterClass) (hc : Resolves dir tree r step.id c) (h : ¬ Able mode c) :
      Misfits mode dir tree r step index (inability mode c)

variable {mode : OpenMode} {dir : String} {tree : Plugin.LibraryTree} {r : FilterRegistry}
  {step : FilterStep} {id : FilterId} {index : Nat} {c : FilterClass} {error : FilterError}

/-! ### One step -/

omit [Compression] in
theorem knownPlugin?_of_mem {plugin : Plugin.KnownPlugin} (h : plugin ∈ Plugin.knownPlugins) :
    Plugin.knownPlugin? plugin.id = some plugin := by
  simp only [Plugin.knownPlugins, List.mem_cons, List.not_mem_nil, or_false] at h
  rcases h with rfl | rfl <;> rfl

omit [Compression] in
theorem knownPlugin?_eq_none_iff :
    Plugin.knownPlugin? id = none ↔ ∀ plugin ∈ Plugin.knownPlugins, plugin.id ≠ id := by
  simp [Plugin.knownPlugin?]

theorem find?_of_mem (h : c ∈ Builtin.classes) : Builtin.find? c.id = some c := by
  simp only [Builtin.classes, List.mem_cons, List.not_mem_nil, or_false] at h
  rcases h with rfl | rfl | rfl <;> rfl

theorem find?_eq_none_iff : Builtin.find? id = none ↔ ∀ c ∈ Builtin.classes, c.id ≠ id := by
  simp [Builtin.find?]

theorem Resolves.id_eq (h : Resolves dir tree r id c) : c.id = id := by
  cases h with
  | plugin plugin hplugin hid _ h =>
    cases h
    exact hid
  | builtin _ _ _ hid => exact hid
  | registered _ _ _ hc =>
    rw [FilterRegistry.get?] at hc
    simpa using List.find?_some hc

theorem resolveStep_of_resolves (h : Resolves dir tree r step.id c) :
    resolveStep step dir tree r = .ok c := by
  unfold resolveStep
  cases h with
  | plugin plugin hplugin hid _ h =>
    rw [← hid, knownPlugin?_of_mem hplugin]
    exact Plugin.KnownPlugin.load_of_gives hplugin h
  | builtin hplugin _ hc hid =>
    rw [knownPlugin?_eq_none_iff.2 hplugin, ← hid, find?_of_mem hc]
  | registered hplugin hbuiltin _ hc =>
    rw [knownPlugin?_eq_none_iff.2 hplugin, find?_eq_none_iff.2 hbuiltin, hc]

theorem resolveStep_of_unresolved (h : Unresolved dir tree r step.id error) :
    resolveStep step dir tree r = .error error := by
  unfold resolveStep
  cases h with
  | plugin plugin hplugin hid _ h =>
    rw [← hid, knownPlugin?_of_mem hplugin]
    exact Plugin.KnownPlugin.load_of_lacks h
  | unknown hplugin hbuiltin hr =>
    rw [knownPlugin?_eq_none_iff.2 hplugin, find?_eq_none_iff.2 hbuiltin, hr]

theorem resolves_or_unresolved (dir : String) (tree : Plugin.LibraryTree) (r : FilterRegistry)
    (id : FilterId) :
    (∃ c, Resolves dir tree r id c) ∨ ∃ error, Unresolved dir tree r id error := by
  by_cases hplugin : ∃ plugin ∈ Plugin.knownPlugins, plugin.id = id
  · obtain ⟨plugin, hmem, hid⟩ := hplugin
    rcases plugin.gives_or_lacks dir tree with ⟨c, hc⟩ | ⟨error, herror⟩
    · exact .inl ⟨c, .plugin plugin hmem hid c hc⟩
    · exact .inr ⟨error, .plugin plugin hmem hid error herror⟩
  have hno : ∀ plugin ∈ Plugin.knownPlugins, plugin.id ≠ id :=
    fun plugin hmem hid => hplugin ⟨plugin, hmem, hid⟩
  by_cases hbuiltin : ∃ c ∈ Builtin.classes, c.id = id
  · obtain ⟨c, hc, hid⟩ := hbuiltin
    exact .inl ⟨c, .builtin hno c hc hid⟩
  have hnone : ∀ c ∈ Builtin.classes, c.id ≠ id := fun c hc hid => hbuiltin ⟨c, hc, hid⟩
  cases hget : r.get? id with
  | some c => exact .inl ⟨c, .registered hno hnone c hget⟩
  | none => exact .inr ⟨_, .unknown hno hnone hget⟩

theorem fits_or_misfits (mode : OpenMode) (dir : String) (tree : Plugin.LibraryTree)
    (r : FilterRegistry) (step : FilterStep) (index : Nat) :
    (∃ c, Fits mode dir tree r step c) ∨ ∃ error, Misfits mode dir tree r step index error := by
  rcases resolves_or_unresolved dir tree r step.id with ⟨c, hc⟩ | ⟨error, herror⟩
  · by_cases hable : Able mode c
    · exact .inl ⟨c, hc, hable⟩
    · exact .inr ⟨_, .unable c hc hable⟩
  · exact .inr ⟨_, .unresolved error herror⟩

/-! ### All steps -/

variable {steps : List (FilterStep × Nat)} {classes : List FilterClass}

theorem resolveSteps_of_fits (h : Fits mode dir tree r step c) :
    resolveSteps mode dir tree r ((step, index) :: steps) =
      (resolveSteps mode dir tree r steps).map (c :: ·) := by
  have hmode : checkMode mode c = .ok c := by
    have hable := h.able
    unfold checkMode
    cases mode <;> exact if_pos hable
  rw [resolveSteps, resolveStep_of_resolves h.resolves]
  dsimp only
  rw [hmode]

theorem resolveSteps_of_misfits (h : Misfits mode dir tree r step index error) :
    resolveSteps mode dir tree r ((step, index) :: steps) = .error error := by
  rw [resolveSteps]
  cases h with
  | unresolved error h => rw [resolveStep_of_unresolved h]
  | unable c hc h =>
    have hmode : checkMode mode c = .error (inability mode c) := by
      unfold checkMode
      cases mode <;> exact if_neg h
    rw [resolveStep_of_resolves hc]
    dsimp only
    rw [hmode]

theorem Fits.not_misfits (h : Fits mode dir tree r step c) :
    ¬ Misfits mode dir tree r step index error := by
  intro herror
  have hok : resolveSteps mode dir tree r [(step, index)] = .ok [c] := by
    rw [resolveSteps_of_fits h]
    rfl
  rw [resolveSteps_of_misfits herror] at hok
  cases hok

/-- **Steps are resolved to classes exactly if each of them is in order**, to its class. -/
theorem resolveSteps_eq_ok_iff :
    resolveSteps mode dir tree r steps = .ok classes ↔
      List.Forall₂ (fun x c => Fits mode dir tree r x.1 c) steps classes := by
  induction steps generalizing classes with
  | nil =>
    rw [List.forall₂_nil_left_iff, resolveSteps]
    exact ⟨fun h => (Except.ok.inj h).symm, fun h => h ▸ rfl⟩
  | cons x steps ih =>
    obtain ⟨step, index⟩ := x
    rw [List.forall₂_cons_left_iff]
    constructor
    · intro h
      rcases fits_or_misfits mode dir tree r step index with ⟨c, hc⟩ | ⟨error, herror⟩
      · rw [resolveSteps_of_fits hc] at h
        cases hrest : resolveSteps mode dir tree r steps with
        | error error => rw [hrest] at h; cases h
        | ok others =>
          rw [hrest] at h
          cases h
          exact ⟨c, others, hc, ih.1 hrest, rfl⟩
      · rw [resolveSteps_of_misfits herror] at h
        cases h
    · rintro ⟨c, others, hc, hothers, rfl⟩
      rw [resolveSteps_of_fits hc, ih.2 hothers]
      rfl

/-- **If resolving fails, it fails for the first step that is not in order.** -/
theorem resolveSteps_eq_error_iff :
    resolveSteps mode dir tree r steps = .error error ↔
      ∃ before x after, steps = before ++ x :: after ∧
        (∀ y ∈ before, ∃ c, Fits mode dir tree r y.1 c) ∧ Misfits mode dir tree r x.1 x.2 error := by
  constructor
  · intro h
    induction steps with
    | nil => cases h
    | cons x steps ih =>
      rcases fits_or_misfits mode dir tree r x.1 x.2 with ⟨c, hc⟩ | ⟨error', herror⟩
      · rw [resolveSteps_of_fits hc] at h
        cases hrest : resolveSteps mode dir tree r steps with
        | ok others => rw [hrest] at h; cases h
        | error error' =>
          rw [hrest] at h
          cases h
          obtain ⟨before, y, after, rfl, hbefore, hy⟩ := ih hrest
          exact ⟨x :: before, y, after, rfl, List.forall_mem_cons.2 ⟨⟨c, hc⟩, hbefore⟩, hy⟩
      · rw [resolveSteps_of_misfits herror] at h
        cases h
        exact ⟨[], x, steps, rfl, nofun, herror⟩
  · rintro ⟨before, x, after, rfl, hbefore, hx⟩
    induction before with
    | nil => exact resolveSteps_of_misfits hx
    | cons y before ih =>
      obtain ⟨⟨c, hc⟩, hbefore⟩ := List.forall_mem_cons.1 hbefore
      rw [List.cons_append, resolveSteps_of_fits hc, ih hbefore]
      rfl

/-! ### Pipelines -/

/-- A table with the classes of the steps of a pipeline, at the positions of the steps. -/
structure Complete (t : CodecTable) (p : FilterPipeline) (mode : OpenMode) (dir : String)
    (tree : Plugin.LibraryTree) (r : FilterRegistry) : Prop where
  mode_eq : t.mode = mode
  length_eq : t.classes.length = p.length
  entry : ∀ index step, p.get? index = some step →
    ∃ c, t.get? index = some c ∧ c.id = step.id ∧ Fits mode dir tree r step c ∧
      CodecSource.codec t index step = some c

/-- The failure of the first step that is not in order. -/
def FirstMisfit (p : FilterPipeline) (mode : OpenMode) (dir : String) (tree : Plugin.LibraryTree)
    (r : FilterRegistry) (error : FilterError) : Prop :=
  ∃ index step, p.get? index = some step ∧ Misfits mode dir tree r step index error ∧
    ∀ j < index, ∀ earlier, p.get? j = some earlier → ∃ c, Fits mode dir tree r earlier c

variable {p : FilterPipeline} {t : CodecTable}

theorem resolve_eq_ok_iff :
    resolve p mode dir tree r = .ok t ↔
      t.mode = mode ∧ List.Forall₂ (Fits mode dir tree r) p.steps t.classes := by
  have hsteps : List.Forall₂ (fun x c => Fits mode dir tree r x.1 c) p.steps.zipIdx t.classes ↔
      List.Forall₂ (Fits mode dir tree r) p.steps t.classes := by
    rw [← List.forall₂_map_left_iff, List.zipIdx_map_fst]
  rw [← hsteps, ← resolveSteps_eq_ok_iff, resolve]
  cases resolveSteps mode dir tree r p.steps.zipIdx with
  | error error => exact ⟨nofun, fun h => (nomatch h.2)⟩
  | ok classes =>
    constructor
    · intro h
      cases h
      exact ⟨rfl, rfl⟩
    · rintro ⟨rfl, hclasses⟩
      cases hclasses
      rfl

/-- **The table that a pipeline is resolved to is complete.** -/
theorem complete_of_resolve (h : resolve p mode dir tree r = .ok t) :
    Complete t p mode dir tree r := by
  obtain ⟨hmode, hfits⟩ := resolve_eq_ok_iff.1 h
  refine ⟨hmode, hfits.length_eq.symm, fun index step hstep => ?_⟩
  obtain ⟨hindex, rfl⟩ := List.getElem?_eq_some_iff.1 hstep
  have hlt : index < t.classes.length := hfits.length_eq ▸ hindex
  have hc : Fits mode dir tree r p.steps[index] t.classes[index] :=
    (List.forall₂_iff_get.1 hfits).2 index hindex hlt
  have hget : t.get? index = some t.classes[index] := List.getElem?_eq_getElem hlt
  refine ⟨t.classes[index], hget, hc.resolves.id_eq, hc, ?_⟩
  show (t.get? index).filter _ = _
  rw [hget, Option.filter_some, if_pos (by simpa using hc.resolves.id_eq)]

/-- **Resolving fails with the failure of the first step that is not in order.** -/
theorem resolve_eq_error_iff :
    resolve p mode dir tree r = .error error ↔ FirstMisfit p mode dir tree r error := by
  have hsteps : resolve p mode dir tree r = .error error ↔
      resolveSteps mode dir tree r p.steps.zipIdx = .error error := by
    rw [resolve]
    cases resolveSteps mode dir tree r p.steps.zipIdx with
    | error error => exact ⟨fun h => by cases h; rfl, fun h => by cases h; rfl⟩
    | ok classes => exact ⟨nofun, nofun⟩
  have hnumbered : ∀ {j : Nat} {step : FilterStep}, p.get? j = some step →
      p.steps.zipIdx[j]? = some (step, j) := by
    intro j step h
    rw [List.getElem?_zipIdx, show p.steps[j]? = some step from h]
    simp
  rw [hsteps, resolveSteps_eq_error_iff]
  constructor
  · rintro ⟨before, x, after, hsplit, hbefore, hx⟩
    have hget : p.steps.zipIdx[before.length]? = some x := by simp [hsplit]
    have hstep : p.get? x.2 = some x.1 :=
      List.mem_zipIdx_iff_getElem?.1 (List.mem_of_getElem? hget)
    have hindex : x.2 = before.length := by
      rw [List.getElem?_zipIdx, Option.map_eq_some_iff] at hget
      obtain ⟨step, -, rfl⟩ := hget
      exact Nat.zero_add _
    refine ⟨x.2, x.1, hstep, hx, fun j hj earlier hearlier => ?_⟩
    have hbefore' := hnumbered hearlier
    rw [hsplit, List.getElem?_append_left (hindex ▸ hj)] at hbefore'
    exact hbefore (earlier, j) (List.mem_of_getElem? hbefore')
  · rintro ⟨index, step, hstep, hx, hbefore⟩
    obtain ⟨hlt, hget⟩ := List.getElem?_eq_some_iff.1 (hnumbered hstep)
    refine ⟨p.steps.zipIdx.take index, (step, index), p.steps.zipIdx.drop (index + 1), ?_,
      fun y hy => ?_, hx⟩
    · rw [← hget, List.getElem_cons_drop, List.take_append_drop]
    · obtain ⟨j, hj, rfl⟩ := List.mem_take_iff_getElem.1 hy
      rw [List.length_zipIdx] at hj
      refine hbefore j (by omega) _ ?_
      rw [List.getElem_zipIdx]
      exact List.getElem?_eq_getElem (by omega)

/-- **Resolving succeeds exactly if every step is in order.** -/
theorem exists_resolve_iff :
    (∃ t, resolve p mode dir tree r = .ok t) ↔
      ∀ step ∈ p.steps, ∃ c, Fits mode dir tree r step c := by
  constructor
  · rintro ⟨t, ht⟩ step hstep
    obtain ⟨index, hindex⟩ := List.getElem?_of_mem hstep
    obtain ⟨c, -, -, hc, -⟩ := (complete_of_resolve ht).entry index step hindex
    exact ⟨c, hc⟩
  · intro h
    cases hresult : resolve p mode dir tree r with
    | ok t => exact ⟨t, rfl⟩
    | error error =>
      obtain ⟨index, step, hstep, hmisfits, -⟩ := resolve_eq_error_iff.1 hresult
      obtain ⟨c, hc⟩ := h step (List.mem_of_getElem? hstep)
      exact absurd hmisfits hc.not_misfits

end CodecTable

end FilteredChunks
