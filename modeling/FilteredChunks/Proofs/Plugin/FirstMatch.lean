import FilteredChunks.Proofs.Registry.History
import FilteredChunks.Proofs.Sorting
import FilteredChunks.Proofs.Text.Order

/-!
# A search for a plugin is decided by the files that offer it

What a file must be so that it offers a class for a number is said in one place (`Offers`), and a file that
is not so offers none, however it fails (`probed?_eq_some_iff`).  In a directory the first of those that
offer one counts, in the order of the bytes of their names (`First`); of the directories, the first that
has such a file (`Loader.Picks`).  So other files make no difference, whatever is done to them
(`load_eq_of_offers`).
-/

namespace FilteredChunks

namespace Plugin

/-- A file of a directory offers a class for a number: its name is that of a shared library, it can be
opened, it exports both functions, it is of the type of filters, and its descriptor is not null, has the
version that is understood, the number, which is valid, and a filter function. -/
inductive Offers (dir : String) (id : FilterId) (file : LibraryFile) : FilterClass → Prop
  | intro (library : Library) (d : Descriptor) (raw : RawTransform)
      (hname : isLibraryName file.name = true) (hopens : file.library = some library)
      (htype : library.pluginType = some filterType) (hinfo : library.info = some (some d))
      (hversion : d.version = descriptorVersion) (hvalid : d.id.isValid = true) (hid : d.id = id)
      (hraw : d.transform = some raw) :
      Offers dir id file ⟨d.id, d.filterName, d.encoder, d.decoder, codecOf raw,
        .library (PathName.join dir file.name)⟩

/-- A file of a directory offers some class for a number. -/
def Suits (dir : String) (id : FilterId) (file : LibraryFile) : Prop := ∃ c, Offers dir id file c

/-- A class is offered by a file such that no other file that offers one comes before it, by the bytes of
their names. -/
def First (dir : String) (id : FilterId) (files : List LibraryFile) (c : FilterClass) : Prop :=
  ∃ file ∈ files, Offers dir id file c ∧
    ∀ other ∈ files, Suits dir id other → Utf8.encode file.name ≤ Utf8.encode other.name

/-- In every directory each file has a name of its own. -/
def LibraryTree.IsDistinct (tree : LibraryTree) : Prop :=
  ∀ dir files, tree dir = some files → (files.map (·.name)).Nodup

/-- The files of a directory; one that cannot be read has none. -/
def LibraryTree.files (tree : LibraryTree) (dir : String) : List LibraryFile := (tree dir).getD []

/-- A class is the first that is offered in a directory, and none is offered in those before. -/
inductive Loader.Picks (loader : Loader) (id : FilterId) (c : FilterClass) : Prop
  | intro (before : List String) (dir : String) (after : List String)
      (hdirs : loader.dirs = before ++ dir :: after)
      (hbefore : ∀ d ∈ before, ∀ file ∈ loader.tree.files d, ¬ Suits d id file)
      (hfirst : First dir id (loader.tree.files dir) c)

variable {dir : String} {id : FilterId} {file : LibraryFile} {files : List LibraryFile}
  {c : FilterClass} {loader : Loader}

/-! ### One file -/

/-- **Probing a file finds what it offers**; in every other case it is passed over. -/
theorem probed?_eq_some_iff (hname : isLibraryName file.name = true) :
    probed? dir id file = some c ↔ Offers dir id file c := by
  have hprobed : probed? dir id file = some c ↔ probe dir id file = .ok (some c) := by
    unfold probed?
    split
    · next hprobe => simp [hprobe]
    · next hprobe => simp [hprobe]
  rw [hprobed, probe_eq_some_iff]
  constructor
  · rintro ⟨library, descriptor, hopens, htype, hinfo, hclass, hid⟩
    obtain ⟨d, raw, rfl, hversion, hvalid, hraw, rfl⟩ := classOf_eq_ok_iff.1 hclass
    exact .intro library d raw hname hopens htype hinfo hversion hvalid hid hraw
  · rintro ⟨library, d, raw, -, hopens, htype, hinfo, hversion, hvalid, hid, hraw⟩
    exact ⟨library, some d, hopens, htype, hinfo,
      classOf_eq_ok_iff.2 ⟨d, raw, rfl, hversion, hvalid, hraw, rfl⟩, hid⟩

/-! ### One directory -/

theorem Offers.isLibraryName (h : Offers dir id file c) : isLibraryName file.name = true := by
  cases h
  assumption

theorem mem_candidates_iff :
    file ∈ candidates files ↔ file ∈ files ∧ isLibraryName file.name = true := by
  rw [candidates, List.mem_mergeSort, List.mem_filter]

theorem pairwise_candidates (files : List LibraryFile) :
    (candidates files).Pairwise fun a b => Utf8.encode a.name ≤ Utf8.encode b.name := by
  have hsorted : (candidates files).Pairwise fun a b => a.name ≤ b.name :=
    pairwise_mergeSort_by LibraryFile.name _
  exact hsorted.imp fun h => Utf8.encode_le_encode_iff.2 h

theorem findSome?_candidates_eq_none_iff :
    (candidates files).findSome? (probed? dir id) = none ↔
      ∀ file ∈ files, ¬ Suits dir id file := by
  rw [List.findSome?_eq_none_iff]
  constructor
  · rintro h file hfile ⟨c, hc⟩
    have hnone := h file (mem_candidates_iff.2 ⟨hfile, hc.isLibraryName⟩)
    rw [(probed?_eq_some_iff hc.isLibraryName).2 hc] at hnone
    cases hnone
  · intro h file hfile
    obtain ⟨hmem, hname⟩ := mem_candidates_iff.1 hfile
    rw [Option.eq_none_iff_forall_ne_some]
    intro c hc
    exact h file hmem ⟨c, (probed?_eq_some_iff hname).1 hc⟩

theorem first_of_findSome?_candidates
    (h : (candidates files).findSome? (probed? dir id) = some c) : First dir id files c := by
  obtain ⟨before, file, after, hsplit, hprobed, hbefore⟩ := List.findSome?_eq_some_iff.1 h
  have hcandidate : file ∈ candidates files := by simp [hsplit]
  obtain ⟨hfile, hname⟩ := mem_candidates_iff.1 hcandidate
  refine ⟨file, hfile, (probed?_eq_some_iff hname).1 hprobed, fun other hother hsuits => ?_⟩
  obtain ⟨c', hc'⟩ := hsuits
  have hmem := mem_candidates_iff.2 ⟨hother, hc'.isLibraryName⟩
  have hsorted := pairwise_candidates files
  rw [hsplit] at hmem hsorted
  rcases List.mem_append.1 hmem with hmem | hmem
  · -- those before the one that was found offer nothing
    have hnone := hbefore other hmem
    rw [(probed?_eq_some_iff hc'.isLibraryName).2 hc'] at hnone
    cases hnone
  · rcases List.mem_cons.1 hmem with rfl | hmem
    · exact List.le_refl _
    · exact List.rel_of_pairwise_cons (List.pairwise_append.1 hsorted).2.1 hmem

theorem First.unique {c' : FilterClass} (hnames : (files.map (·.name)).Nodup)
    (h : First dir id files c) (h' : First dir id files c') : c = c' := by
  obtain ⟨file, hfile, hoffers, hleast⟩ := h
  obtain ⟨file', hfile', hoffers', hleast'⟩ := h'
  have hname : file.name = file'.name := le_antisymm
    (Utf8.encode_le_encode_iff.1 (hleast file' hfile' ⟨c', hoffers'⟩))
    (Utf8.encode_le_encode_iff.1 (hleast' file hfile ⟨c, hoffers⟩))
  obtain rfl : file = file' := List.inj_on_of_nodup_map hnames hfile hfile' hname
  have hprobed := (probed?_eq_some_iff hoffers.isLibraryName).2 hoffers
  have hprobed' := (probed?_eq_some_iff hoffers.isLibraryName).2 hoffers'
  exact Option.some.inj (hprobed.symm.trans hprobed')

theorem findSome?_candidates_eq_some_iff (hnames : (files.map (·.name)).Nodup) :
    (candidates files).findSome? (probed? dir id) = some c ↔ First dir id files c := by
  refine ⟨first_of_findSome?_candidates, fun h => ?_⟩
  rcases hfound : (candidates files).findSome? (probed? dir id) with _ | c'
  · obtain ⟨file, hfile, hoffers, -⟩ := h
    exact absurd ⟨c, hoffers⟩ (findSome?_candidates_eq_none_iff.1 hfound file hfile)
  · rw [First.unique hnames h (first_of_findSome?_candidates hfound)]

theorem First.mono {files' : List LibraryFile} (h : First dir id files c)
    (hsame : ∀ file, Suits dir id file → (file ∈ files ↔ file ∈ files')) : First dir id files' c := by
  obtain ⟨file, hfile, hoffers, hleast⟩ := h
  exact ⟨file, (hsame file ⟨c, hoffers⟩).1 hfile, hoffers,
    fun other hother hsuits => hleast other ((hsame other hsuits).2 hother) hsuits⟩

/-! ### All directories -/

namespace Loader

theorem load_eq (loader : Loader) (id : FilterId) :
    loader.load id = loader.dirs.findSome? fun dir =>
      (candidates (loader.tree.files dir)).findSome? (probed? dir id) := by
  unfold load
  congr 1
  funext dir
  unfold LibraryTree.files
  split
  · next hfiles => rw [hfiles, Option.getD_some]
  · next hfiles => simp [hfiles, candidates]

/-- **A loader finds nothing if and only if no file offers anything.** -/
theorem load_eq_none_iff :
    loader.load id = none ↔
      ∀ dir ∈ loader.dirs, ∀ file ∈ loader.tree.files dir, ¬ Suits dir id file := by
  rw [load_eq, List.findSome?_eq_none_iff]
  exact forall₂_congr fun dir _ => findSome?_candidates_eq_none_iff

/-- **A loader finds the first class that is offered.** -/
theorem load_eq_some_iff (hnames : loader.tree.IsDistinct) :
    loader.load id = some c ↔ loader.Picks id c := by
  have hdistinct (dir : String) : ((loader.tree.files dir).map (·.name)).Nodup := by
    unfold LibraryTree.files
    rcases hfiles : loader.tree dir with _ | files
    · exact List.nodup_nil
    · exact hnames dir files hfiles
  rw [load_eq, List.findSome?_eq_some_iff]
  constructor
  · rintro ⟨before, dir, after, hdirs, hfound, hbefore⟩
    exact .intro before dir after hdirs
      (fun d hd => findSome?_candidates_eq_none_iff.1 (hbefore d hd))
      ((findSome?_candidates_eq_some_iff (hdistinct dir)).1 hfound)
  · rintro ⟨before, dir, after, hdirs, hbefore, hfirst⟩
    exact ⟨before, dir, after, hdirs,
      (findSome?_candidates_eq_some_iff (hdistinct dir)).2 hfirst,
      fun d hd => findSome?_candidates_eq_none_iff.2 (hbefore d hd)⟩

theorem Picks.mono {tree : LibraryTree} (h : loader.Picks id c)
    (hsame : ∀ dir ∈ loader.dirs, ∀ file, Suits dir id file →
      (file ∈ loader.tree.files dir ↔ file ∈ tree.files dir)) :
    Picks ⟨loader.dirs, tree⟩ id c := by
  obtain ⟨before, dir, after, hdirs, hbefore, hfirst⟩ := h
  have hdir : dir ∈ loader.dirs := by simp [hdirs]
  refine .intro before dir after hdirs (fun d hd file hfile hsuits => ?_)
    (hfirst.mono (hsame dir hdir))
  have hd' : d ∈ loader.dirs := by simp [hdirs, hd]
  exact hbefore d hd file ((hsame d hd' file hsuits).2 hfile) hsuits

/-- **Other files make no difference**: what is found stays if the files that offer a class do. -/
theorem load_eq_of_offers {tree : LibraryTree} (hnames : loader.tree.IsDistinct)
    (hnames' : tree.IsDistinct)
    (hsame : ∀ dir ∈ loader.dirs, ∀ file, Suits dir id file →
      (file ∈ loader.tree.files dir ↔ file ∈ tree.files dir)) :
    load ⟨loader.dirs, tree⟩ id = loader.load id := by
  refine Option.ext fun c => ?_
  rw [load_eq_some_iff hnames, load_eq_some_iff hnames']
  exact ⟨fun h => h.mono fun dir hdir file hsuits => (hsame dir hdir file hsuits).symm,
    fun h => h.mono hsame⟩

theorem load_append (more : List String) :
    load ⟨loader.dirs ++ more, loader.tree⟩ id =
      (loader.load id).or (load ⟨more, loader.tree⟩ id) := by
  rw [load_eq, load_eq, load_eq, List.findSome?_append]

theorem isValid_of_load (h : loader.load id = some c) : c.id.isValid = true := by
  obtain ⟨dir, file, hprobe⟩ := exists_probe_of_load h
  obtain ⟨-, descriptor, -, -, -, hclass, -⟩ := probe_eq_some_iff.1 hprobe
  obtain ⟨d, raw, -, -, hvalid, -, rfl⟩ := classOf_eq_ok_iff.1 hclass
  exact hvalid

end Loader

end Plugin

namespace FilterRegistry

variable {r : FilterRegistry} {loader : Plugin.Loader} {id : FilterId}

theorem loadPlugin_eq (hloader : r.loader = some loader) (id : FilterId) :
    (r.loadPlugin id).result = .ok (loader.load id) ∧
      (r.loadPlugin id).registry = ((loader.load id).map r.insert).getD r := by
  unfold loadPlugin
  rw [hloader]
  dsimp only
  rcases hload : loader.load id with _ | c
  · exact ⟨rfl, rfl⟩
  · dsimp only
    rw [enter, if_neg (by simp [Plugin.Loader.isValid_of_load hload])]
    exact ⟨rfl, rfl⟩

/-- **A filter that is not there is available if and only if a plugin is found**, and then it is there. -/
theorem isAvailable_of_loader (hloader : r.loader = some loader) (hvalid : id.isValid = true)
    (habsent : r.get? id = none) :
    (r.isAvailable id).result = .ok (loader.load id).isSome ∧
      (r.isAvailable id).registry.get? id = loader.load id := by
  obtain ⟨hresult, hregistry⟩ := loadPlugin_eq hloader id
  have hregistered : r.isRegistered id = false := by
    rw [isRegistered, position?_eq_none_of_get? habsent]
    rfl
  rw [isAvailable, if_neg (by simp [hvalid]), if_neg (by simp [hregistered])]
  dsimp only
  rw [hresult, hregistry]
  refine ⟨rfl, ?_⟩
  rcases hload : loader.load id with _ | c
  · exact habsent
  · obtain rfl : c.id = id := Plugin.id_of_load hload
    rw [Option.map_some, Option.getD_some, get?, classes_insert_of_get? habsent, List.find?_append,
      show r.classes.find? (fun old => old.id == c.id) = none from habsent]
    simp

end FilterRegistry

namespace Plugin

/-- **Loading is a search for the first match, which other files do not disturb.**  What a loader finds is
the class of the first file that offers one, of the directories in their order and in a directory in the
order of the bytes of names; it finds nothing if and only if no file offers any.  So it finds the same in
any files of which the same ones offer a class, and with more directories after a match.  Loading into a
registry never fails, and a filter that a registry does not have is available if and only if the loader
finds it, and then the registry has what was found. -/
theorem Loader.isFirstMatch {loader : Loader} (hnames : loader.tree.IsDistinct) (id : FilterId) :
    (∀ c, loader.load id = some c ↔ loader.Picks id c) ∧
    (loader.load id = none ↔
      ∀ dir ∈ loader.dirs, ∀ file ∈ loader.tree.files dir, ¬ Suits dir id file) ∧
    (∀ tree : LibraryTree, tree.IsDistinct →
      (∀ dir ∈ loader.dirs, ∀ file, Suits dir id file →
        (file ∈ loader.tree.files dir ↔ file ∈ tree.files dir)) →
      load ⟨loader.dirs, tree⟩ id = loader.load id) ∧
    (∀ more, loader.load id ≠ none →
      load ⟨loader.dirs ++ more, loader.tree⟩ id = loader.load id) ∧
    ∀ r : FilterRegistry, r.loader = some loader →
      (r.loadPlugin id).result = .ok (loader.load id) ∧
      (id.isValid = true → r.get? id = none →
        (r.isAvailable id).result = .ok (loader.load id).isSome ∧
        (r.isAvailable id).registry.get? id = loader.load id) := by
  refine ⟨fun c => load_eq_some_iff hnames, load_eq_none_iff,
    fun tree hnames' hsame => load_eq_of_offers hnames hnames' hsame, fun more hfound => ?_,
    fun r hloader => ⟨(FilterRegistry.loadPlugin_eq hloader id).1,
      fun hvalid habsent => FilterRegistry.isAvailable_of_loader hloader hvalid habsent⟩⟩
  obtain ⟨c, hc⟩ := Option.ne_none_iff_exists'.1 hfound
  rw [load_append, hc, Option.some_or]

/-- A descriptor of a filter that doubles its bytes. -/
def doublingDescriptor : Descriptor := ⟨1, 300, true, true, none, some SampleFilter.doubling.run⟩

/-- Only directory `p` can be read.  The first library there, in the order of names, exports nothing, and
the next two are plugins for the same number. -/
def crowdedTree : LibraryTree := fun dir =>
  if dir = "p" then
    some [⟨"lib.so.1", some ⟨some 0, some (some doublingDescriptor), []⟩⟩,
      ⟨"b.so", some ⟨some 0, some (some doublingDescriptor), []⟩⟩,
      ⟨"a.so", some ⟨none, none, []⟩⟩]
  else none

theorem isDistinct_crowdedTree : crowdedTree.IsDistinct := by
  intro dir files hfiles
  unfold crowdedTree at hfiles
  split at hfiles
  · cases hfiles
    decide
  · cases hfiles

/-- The second plugin of the directory is found, and makes the filter available. -/
theorem Loader.isFirstMatch_crowded :
    let loader : Loader := ⟨["x", "p"], crowdedTree⟩
    let c : FilterClass := ⟨300, doublingDescriptor.filterName, true, true,
      codecOf SampleFilter.doubling.run, .library "p/b.so"⟩
    let r : FilterRegistry := FilterRegistry.builtins.withLoader loader
    loader.tree.IsDistinct ∧ loader.load 300 = some c ∧ r.loader = some loader ∧
      FilterId.isValid 300 = true ∧ r.get? 300 = none ∧
      (r.isAvailable 300).result = .ok true ∧ (r.isAvailable 300).registry.get? 300 = some c := by
  intro loader c r
  let file : LibraryFile := ⟨"b.so", some ⟨some 0, some (some doublingDescriptor), []⟩⟩
  have hpath : PathName.join "p" "b.so" = "p/b.so" := by decide +kernel
  have hname : isLibraryName file.name = true := by decide +kernel
  have hoffers : Offers "p" 300 file c := by
    have h : Offers "p" 300 file ⟨300, doublingDescriptor.filterName, true, true,
        codecOf SampleFilter.doubling.run, .library (PathName.join "p" "b.so")⟩ :=
      .intro _ doublingDescriptor _ hname rfl rfl rfl rfl (by decide) rfl rfl
    rwa [hpath] at h
  have hpicks : loader.Picks 300 c := by
    refine .intro ["x"] "p" [] rfl (fun d hd file hfile => ?_) ⟨_, ?_, hoffers, fun other hother => ?_⟩
    · obtain rfl := List.mem_singleton.1 hd
      cases hfile
    · simp [loader, file, LibraryTree.files, crowdedTree]
    · simp only [loader, LibraryTree.files, crowdedTree, if_true, Option.getD_some, List.mem_cons,
        List.not_mem_nil, or_false] at hother
      rintro ⟨_, library, _, _, _, hopens, htype, -⟩
      rcases hother with rfl | rfl | rfl
      · exact Utf8.encode_le_encode_iff.2 (by decide +kernel)
      · exact List.le_refl _
      · -- this library exports nothing
        cases hopens
        cases htype
  obtain ⟨hfirst, -, -, -, hregistry⟩ := 
    isFirstMatch (show loader.tree.IsDistinct from isDistinct_crowdedTree) 300
  have hload : loader.load 300 = some c := (hfirst c).2 hpicks
  obtain ⟨-, havailable⟩ := hregistry r rfl
  obtain ⟨hresult, hget⟩ := havailable (by decide) rfl
  rw [hload] at hresult hget
  exact ⟨isDistinct_crowdedTree, hload, rfl, by decide, rfl, hresult, hget⟩

end Plugin

end FilteredChunks
