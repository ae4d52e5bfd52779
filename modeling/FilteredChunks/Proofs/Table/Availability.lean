import FilteredChunks.EngineConfig
import FilteredChunks.Proofs.Plugin.FirstMatch
import FilteredChunks.Proofs.Table.Resolution
import FilteredChunks.Sample.Plugin

/-!
# Plugins that are available and plugins that are resolved

A configuration names a directory, or several with colons between them.  The loader of a registry looks
through each of them, so a well-known plugin in any one is available (`isAvailable_of_isInstalled`).  A
table is resolved with the same setting, but takes all of it for the name of one directory.  With one
directory that is the one in which the plugin was found; with colons it is none of those that are
searched (`notMem_of_mem_searchDirs`), and a plugin that is available cannot be resolved.
-/

namespace FilteredChunks

/-! ### The directories of a setting -/

namespace PathName

variable {separator : Char} {cs piece : List Char}

theorem splitBy_of_notMem (h : separator ∉ cs) : splitBy separator cs = [cs] := by
  induction cs with
  | nil => rfl
  | cons c cs ih =>
    have hc : c ≠ separator := fun heq => h (heq ▸ List.mem_cons_self)
    have hcs : separator ∉ cs := fun hmem => h (List.mem_cons_of_mem c hmem)
    rw [splitBy, if_neg hc, ih hcs]

theorem notMem_of_mem_splitBy (h : piece ∈ splitBy separator cs) : separator ∉ piece := by
  induction cs generalizing piece with
  | nil =>
    rw [splitBy, List.mem_singleton] at h
    simp [h]
  | cons c cs ih =>
    rw [splitBy] at h
    split at h
    · rcases List.mem_cons.1 h with rfl | h
      · exact List.not_mem_nil
      · exact ih h
    next hc =>
    have hc' : separator ≠ c := fun heq => hc heq.symm
    split at h
    · rw [List.mem_singleton] at h
      simp [h, hc']
    next first pieces hpieces =>
    rw [hpieces] at ih
    rcases List.mem_cons.1 h with rfl | h
    · have hfirst : separator ∉ first := ih List.mem_cons_self
      simp [hfirst, hc']
    · exact ih (List.mem_cons_of_mem first h)

end PathName

namespace EngineConfig

variable {config : EngineConfig} {dir : String}

theorem notMem_of_mem_searchDirs (h : dir ∈ config.searchDirs) : ':' ∉ dir.toList := by
  obtain ⟨piece, hpiece, rfl⟩ := List.mem_map.1 h
  rw [String.toList_ofList]
  exact PathName.notMem_of_mem_splitBy (List.mem_filter.1 hpiece).1

theorem eq_of_mem_searchDirs (hcolon : ':' ∉ config.pluginDir.toList)
    (h : dir ∈ config.searchDirs) : dir = config.pluginDir := by
  obtain ⟨piece, hpiece, rfl⟩ := List.mem_map.1 h
  have hmem := (List.mem_filter.1 hpiece).1
  rw [PathName.splitBy_of_notMem hcolon, List.mem_singleton] at hmem
  rw [hmem, String.ofList_toList]

end EngineConfig

/-! ### Libraries of well-known plugins -/

namespace Plugin

namespace KnownPlugin

/-- A descriptor that is understood, for a plugin's number and with a function. -/
structure Describes (plugin : KnownPlugin) (d : Descriptor) : Prop where
  version : d.version = 1
  id : d.id = plugin.id
  function : ∃ raw, d.transform = some raw

/-- A library exports an encoder under a plugin's symbol. -/
def IsExported (plugin : KnownPlugin) (library : Library) : Prop :=
  ∃ d, library.symbols.lookup plugin.symbol = some d ∧ plugin.Describes d ∧ d.encoder = true

/-- A directory has a valid library of a plugin under its name: it says that it is a filter, gives a
descriptor of the plugin, and exports one with an encoder. -/
def IsInstalled (plugin : KnownPlugin) (tree : LibraryTree) (dir : String) : Prop :=
  ∃ library, plugin.Opens dir tree library ∧ library.pluginType = some 0 ∧
    (∃ d, library.info = some (some d) ∧ plugin.Describes d) ∧ plugin.IsExported library

variable {plugin : KnownPlugin} {tree : LibraryTree} {dir : String} {d : Descriptor}

theorem isLibraryName_of_mem (hplugin : plugin ∈ knownPlugins) :
    isLibraryName plugin.library = true := by
  simp only [knownPlugins, List.mem_cons, List.not_mem_nil, or_false] at hplugin
  rcases hplugin with rfl | rfl <;> decide +kernel

theorem exists_load_of_isInstalled (hplugin : plugin ∈ knownPlugins) {dirs : List String}
    (hdir : dir ∈ dirs) (h : plugin.IsInstalled tree dir) :
    ∃ c, Loader.load ⟨dirs, tree⟩ plugin.id = some c := by
  obtain ⟨library, ⟨files, file, hfiles, hfind, hlibrary⟩, htype, ⟨d, hinfo, hd⟩, -⟩ := h
  obtain ⟨raw, hraw⟩ := hd.function
  have hname : file.name = plugin.library := by simpa using List.find?_some hfind
  have hvalid : d.id.isValid = true := hd.id ▸ isValid_of_mem hplugin
  have hsuits : Suits dir plugin.id file :=
    ⟨_, .intro library d raw (hname ▸ isLibraryName_of_mem hplugin) hlibrary htype hinfo hd.version
      hvalid hd.id hraw⟩
  have hfile : file ∈ tree.files dir := by
    rw [LibraryTree.files, hfiles]
    exact List.mem_of_find?_eq_some hfind
  -- another library may come first, but some library is found
  refine Option.ne_none_iff_exists'.1 fun hnone => ?_
  exact Loader.load_eq_none_iff.1 hnone dir hdir file hfile hsuits

end KnownPlugin

end Plugin

variable {plugin : Plugin.KnownPlugin} {tree : Plugin.LibraryTree} {dir : String}

/-- **A plugin that is installed in a directory that is searched is available.** -/
theorem FilterRegistry.isAvailable_of_isInstalled (hplugin : plugin ∈ Plugin.knownPlugins)
    {r : FilterRegistry} {dirs : List String} (hr : r.loader = some ⟨dirs, tree⟩)
    (hdir : dir ∈ dirs) (h : plugin.IsInstalled tree dir) :
    (r.isAvailable plugin.id).result = .ok true := by
  have hvalid : plugin.id.isValid = true := Plugin.KnownPlugin.isValid_of_mem hplugin
  obtain ⟨c, hc⟩ := Plugin.KnownPlugin.exists_load_of_isInstalled hplugin hdir h
  have hid : c.id = plugin.id := Plugin.id_of_load hc
  unfold isAvailable
  rw [hvalid]
  split
  · contradiction
  split
  · rfl
  · simp [loadPlugin, hr, hc, enter, hid, hvalid, Except.map]

namespace CodecTable

variable [Compression] {step : FilterStep} {slots : Nat} {r : FilterRegistry}

/-- A step of a well-known plugin is resolved for writing by what the directory's library exports. -/
theorem resolves_write_iff (hplugin : plugin ∈ Plugin.knownPlugins) (hstep : step.id = plugin.id) :
    (∃ t, resolve ⟨[step], slots⟩ .write dir tree r = .ok t) ↔
      ∃ library, plugin.Opens dir tree library ∧ plugin.IsExported library := by
  rw [exists_resolve_iff]
  constructor
  · intro h
    obtain ⟨c, hc⟩ := h step (List.mem_singleton_self step)
    cases hc.resolves with
    | plugin plugin' hplugin' hid _ hgives =>
      obtain rfl : plugin' = plugin := by
        have hsame := knownPlugin?_of_mem hplugin'
        rw [hid, hstep, knownPlugin?_of_mem hplugin] at hsame
        exact (Option.some.inj hsame).symm
      cases hgives with
      | described library hopens d hd hversion hid raw hraw =>
        exact ⟨library, hopens, d, hd, ⟨hversion, hid, raw, hraw⟩, hc.able⟩
    | builtin hno => exact absurd hstep.symm (hno plugin hplugin)
    | registered hno => exact absurd hstep.symm (hno plugin hplugin)
  · rintro ⟨library, hopens, d, hd, ⟨hversion, hid, raw, hraw⟩, hencoder⟩ other hother
    obtain rfl := List.mem_singleton.1 hother
    exact ⟨_, .plugin plugin hplugin hstep.symm _ (.described library hopens d hd hversion hid raw hraw),
      hencoder⟩

theorem resolve_of_absent (hplugin : plugin ∈ Plugin.knownPlugins) (hstep : step.id = plugin.id)
    {mode : OpenMode} (h : tree dir = none) :
    resolve ⟨[step], slots⟩ mode dir tree r =
      .error ((FilterError.pluginLoad (PathName.join dir plugin.library)).within
        (.resolvingStep 0)) := by
  have hclosed : ∀ library, ¬ plugin.Opens dir tree library := by
    rintro library ⟨files, file, hfiles, -⟩
    rw [h] at hfiles
    cases hfiles
  have hunresolved : Unresolved dir tree r step.id
      (.pluginLoad (PathName.join dir plugin.library)) :=
    .plugin plugin hplugin hstep.symm _ (.library hclosed)
  exact resolve_eq_error_iff.2 ⟨0, step, rfl, .unresolved _ hunresolved, nofun⟩

/-- **An available plugin is resolved if the setting is the name of the directory that has it.**  Let
exactly one of the directories that a configuration lists have a well-known plugin.  Then the plugin is
available.  A step with its number is resolved for writing if and only if the directory named by the
whole setting has a library that exports it: without a colon in the setting that is the directory
which has the plugin, with one it is none of those that are searched, and if there is no such directory
then the step is not resolved. -/
theorem resolves_available_iff (hplugin : plugin ∈ Plugin.knownPlugins) {config : EngineConfig}
    (hdir : dir ∈ config.searchDirs)
    (honly : ∀ other ∈ config.searchDirs, plugin.IsInstalled tree other ↔ other = dir)
    (hr : r.loader = some ⟨config.searchDirs, tree⟩) (hstep : step.id = plugin.id) (slots : Nat)
    (r' : FilterRegistry) :
    (r.isAvailable plugin.id).result = .ok true ∧
    ((∃ t, resolve ⟨[step], slots⟩ .write config.pluginDir tree r' = .ok t) ↔
      ∃ library, plugin.Opens config.pluginDir tree library ∧ plugin.IsExported library) ∧
    (':' ∉ config.pluginDir.toList → config.pluginDir = dir ∧
      ∃ t, resolve ⟨[step], slots⟩ .write config.pluginDir tree r' = .ok t) ∧
    (':' ∈ config.pluginDir.toList → config.pluginDir ∉ config.searchDirs ∧
      (tree config.pluginDir = none →
        resolve ⟨[step], slots⟩ .write config.pluginDir tree r' =
          .error ((FilterError.pluginLoad (PathName.join config.pluginDir plugin.library)).within
            (.resolvingStep 0)))) := by
  have hinstalled : plugin.IsInstalled tree dir := (honly dir hdir).2 rfl
  refine ⟨FilterRegistry.isAvailable_of_isInstalled hplugin hr hdir hinstalled,
    resolves_write_iff hplugin hstep, fun hcolon => ?_, fun hcolon => ⟨fun hmem => ?_, fun habsent => ?_⟩⟩
  · obtain rfl := EngineConfig.eq_of_mem_searchDirs hcolon hdir
    obtain ⟨library, hopens, -, -, hexported⟩ := hinstalled
    exact ⟨rfl, (resolves_write_iff hplugin hstep).2 ⟨library, hopens, hexported⟩⟩
  · exact EngineConfig.notMem_of_mem_searchDirs hmem hcolon
  · exact resolve_of_absent hplugin hstep habsent

end CodecTable

/-! ### The same library in one directory and in a list -/

namespace Plugin

/-- A library with one descriptor, of the plugin with the smaller number. -/
def doublingLibrary : Library :=
  let d : Descriptor := ⟨1, .lz4, true, true, none, some SampleFilter.doubling.run⟩
  ⟨some 0, some (some d), [("H5Z_LZ4", d)]⟩

def doublingPlugin : KnownPlugin := ⟨.lz4, "libh5lz4.so.0", "H5Z_LZ4"⟩

/-- A directory with the library behind other files. -/
def pluginTree : LibraryTree := fun dir =>
  if dir = "p" then
    some [⟨"README", none⟩, ⟨"broken.so", some ⟨none, none, []⟩⟩,
      ⟨"libh5lz4.so.0", some doublingLibrary⟩]
  else none

theorem isInstalled_doublingPlugin_iff (dir : String) :
    doublingPlugin.IsInstalled pluginTree dir ↔ dir = "p" := by
  constructor
  · rintro ⟨library, ⟨files, file, hfiles, -⟩, -⟩
    by_contra hdir
    rw [pluginTree, if_neg hdir] at hfiles
    cases hfiles
  · rintro rfl
    exact ⟨doublingLibrary, ⟨_, _, rfl, rfl, rfl⟩, rfl, ⟨_, rfl, rfl, rfl, _, rfl⟩, _, rfl,
      ⟨rfl, rfl, _, rfl⟩, rfl⟩

end Plugin

namespace CodecTable

open Plugin (doublingPlugin pluginTree)

theorem resolves_available_iff_single :
    let config := EngineConfig.default.withPluginDir "p"
    let r := FilterRegistry.builtins.withLoader ⟨config.searchDirs, pluginTree⟩
    let step : FilterStep := .ofWords .lz4 .mandatory [8192]
    doublingPlugin ∈ Plugin.knownPlugins ∧ "p" ∈ config.searchDirs ∧
    (∀ other ∈ config.searchDirs, doublingPlugin.IsInstalled pluginTree other ↔ other = "p") ∧
    r.loader = some ⟨config.searchDirs, pluginTree⟩ ∧ step.id = doublingPlugin.id ∧
    (r.isAvailable .lz4).result = .ok true ∧
    ∃ t, resolve ⟨[step], 32⟩ .write config.pluginDir pluginTree r = .ok t := by
  intro config r step
  have hplugin : doublingPlugin ∈ Plugin.knownPlugins := by decide
  have hdir : "p" ∈ config.searchDirs := by decide +kernel
  have honly : ∀ other ∈ config.searchDirs,
      doublingPlugin.IsInstalled pluginTree other ↔ other = "p" :=
    fun other _ => Plugin.isInstalled_doublingPlugin_iff other
  have hr : r.loader = some ⟨config.searchDirs, pluginTree⟩ := rfl
  have hstep : step.id = doublingPlugin.id := rfl
  obtain ⟨havailable, -, hresolved, -⟩ := resolves_available_iff hplugin hdir honly hr hstep 32 r
  exact ⟨hplugin, hdir, honly, hr, hstep, havailable, (hresolved (by decide +kernel)).2⟩

/-- With the directory in a list, the plugin is available and is not resolved. -/
theorem not_resolves_available_list :
    let config := EngineConfig.default.withPluginDir "x:p"
    let r := FilterRegistry.builtins.withLoader ⟨config.searchDirs, pluginTree⟩
    let step : FilterStep := .ofWords .lz4 .mandatory [8192]
    config.searchDirs = ["x", "p"] ∧
    (∀ other ∈ config.searchDirs, doublingPlugin.IsInstalled pluginTree other ↔ other = "p") ∧
    (r.isAvailable .lz4).result = .ok true ∧
    resolve ⟨[step], 32⟩ .write config.pluginDir pluginTree r =
      .error ((FilterError.pluginLoad "x:p/libh5lz4.so.0").within (.resolvingStep 0)) := by
  intro config r step
  have hdirs : config.searchDirs = ["x", "p"] := by decide +kernel
  have hplugin : doublingPlugin ∈ Plugin.knownPlugins := by decide
  have hdir : "p" ∈ config.searchDirs := by simp [hdirs]
  have habsent : pluginTree config.pluginDir = none := by rfl
  have hpath : PathName.join config.pluginDir doublingPlugin.library = "x:p/libh5lz4.so.0" := by
    decide +kernel
  have hstep : step.id = doublingPlugin.id := rfl
  refine ⟨hdirs, fun other _ => Plugin.isInstalled_doublingPlugin_iff other, ?_, ?_⟩
  · exact FilterRegistry.isAvailable_of_isInstalled hplugin rfl hdir
      ((Plugin.isInstalled_doublingPlugin_iff "p").2 rfl)
  · rw [← hpath]
    exact resolve_of_absent hplugin hstep habsent

end CodecTable

end FilteredChunks
