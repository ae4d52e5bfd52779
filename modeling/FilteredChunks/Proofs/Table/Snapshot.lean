import FilteredChunks.Proofs.Engine.Sources
import FilteredChunks.Proofs.Registry.History
import FilteredChunks.Proofs.Table.Resolution
import FilteredChunks.Sample.Codec

/-!
# A table keeps what the registry knew

A table takes a built-in filter from the library itself and looks a class up by its position, where a
registry looks for the first class with the number and may load one.  For a registry that started with
the built-in filters both find the same: whatever has been done to it, these are in its first places.  So
a run with the table is a run with the registry, and it stays one with the registry as it was, whatever
becomes of the registry later.
-/

namespace FilteredChunks.CodecTable

/-- A table and the registry that it was resolved with. -/
structure Holding where
  table : CodecTable
  registry : FilterRegistry

/-- What may happen after a table was resolved. -/
inductive Happening
  | change (action : FilterRegistry.Action)
  /-- A pipeline is run over a buffer with the table as its source. -/
  | run (pipeline : FilterPipeline) (options : Engine.Options) (buffer : ChunkBuffer)

namespace Holding

def perform (h : Holding) : Happening → Holding
  | .change action => { h with registry := h.registry.perform action }
  | .run pipeline options buffer =>
    { h with table := (Engine.run pipeline options h.table buffer).source }

def after (h : Holding) (happenings : List Happening) : Holding := happenings.foldl perform h

end Holding

theorem source_run (t : CodecTable) (pipeline : FilterPipeline) (options : Engine.Options)
    (buffer : ChunkBuffer) : (Engine.run pipeline options t buffer).source = t := by
  have hfills := Engine.fills_run pipeline options t buffer
  generalize (Engine.run pipeline options t buffer).source = s at hfills
  induction hfills with
  | refl => rfl
  | load _ _ _ _ ih => exact ih

theorem table_after (h : Holding) (happenings : List Happening) :
    (h.after happenings).table = h.table := by
  induction happenings generalizing h with
  | nil => rfl
  | cons happening happenings ih =>
    refine (ih (h.perform happening)).trans ?_
    cases happening with
    | change action => rfl
    | run pipeline options buffer => exact source_run ..

section

variable [Compression]

/-- With the built-in filters in the first places, a number that is none of a well-known plugin stands
for the class that the registry has under it. -/
theorem get?_of_resolves {r : FilterRegistry} (h : Builtin.classes <+: r.classes) {dir : String}
    {tree : Plugin.LibraryTree} {id : FilterId} {c : FilterClass}
    (hid : ∀ plugin ∈ Plugin.knownPlugins, plugin.id ≠ id) (hc : Resolves dir tree r id c) :
    r.get? id = some c := by
  cases hc with
  | plugin plugin hplugin hplugin' => exact absurd hplugin' (hid plugin hplugin)
  | builtin _ _ hmem hid =>
    obtain ⟨others, hothers⟩ := h
    have hfound := find?_of_mem hmem
    rw [Builtin.find?] at hfound
    rw [FilterRegistry.get?, ← hothers, List.find?_append, ← hid, hfound]
    rfl
  | registered _ _ _ hget => exact hget

theorem knowAlike_of_resolve {r : FilterRegistry} (h : Builtin.classes <+: r.classes)
    {p : FilterPipeline} (hp : ∀ step ∈ p.steps, ∀ plugin ∈ Plugin.knownPlugins, plugin.id ≠ step.id)
    {mode : OpenMode} {dir : String} {tree : Plugin.LibraryTree} {t : CodecTable}
    (ht : resolve p mode dir tree r = .ok t) : Engine.KnowAlike p t r := by
  intro index step hstep
  obtain ⟨c, -, -, hfits, hcodec⟩ := (complete_of_resolve ht).entry index step hstep
  exact ⟨c, hcodec, get?_of_resolves h (hp step (List.mem_of_getElem? hstep)) hfits.resolves⟩

/-- **A table keeps what the registry knew.**  Let a pipeline without well-known plugins be resolved with
a registry that started with the built-in filters.  Then runs with the table, now and after anything
that is done later to the registry or with the table, are the runs with the registry as it was, and
these do not change the registry. -/
theorem alike_after (history : List FilterRegistry.Action) {p : FilterPipeline}
    (hp : ∀ step ∈ p.steps, step.id ≠ 32004 ∧ step.id ≠ 32015) {mode : OpenMode} {dir : String}
    {tree : Plugin.LibraryTree} {t : CodecTable}
    (ht : resolve p mode dir tree ((FilterRegistry.start true).after history) = .ok t)
    (later : List Happening) (options : Engine.Options) (buffer : ChunkBuffer) :
    let r := (FilterRegistry.start true).after history
    let now := Holding.after ⟨t, r⟩ later
    (Engine.run p options now.table buffer).Alike (Engine.run p options r buffer) ∧
    (Engine.run p options r buffer).source = r := by
  intro r now
  have hbuiltin : Builtin.classes <+: r.classes :=
    FilterRegistry.prefix_after (fun _ hc => FilterRegistry.predefined_of_mem_builtin hc)
      List.prefix_rfl history
  have hknown : ∀ step ∈ p.steps, ∀ plugin ∈ Plugin.knownPlugins, plugin.id ≠ step.id := by
    intro step hstep plugin hplugin heq
    simp only [Plugin.knownPlugins, List.mem_cons, List.not_mem_nil, or_false] at hplugin
    rcases hplugin with rfl | rfl
    · exact (hp step hstep).1 heq.symm
    · exact (hp step hstep).2 heq.symm
  have halike := knowAlike_of_resolve hbuiltin hknown ht
  have hr : Engine.KnowAlike p r r := by
    intro index step hstep
    obtain ⟨c, -, hc⟩ := halike index step hstep
    exact ⟨c, hc, hc⟩
  have htable : now.table = t := table_after ⟨t, r⟩ later
  rw [htable]
  exact ⟨Engine.alike_run halike options buffer, Engine.source_run hr options buffer⟩

end

/-! ### A class that is removed -/

/-- A class of an application that is registered before the table is resolved. -/
def appendingClass : FilterClass :=
  .ofCodec 300 "append" (.ofSample (.appending 7) .always .keep) (.application 0)

/-- A run with the table, after which the application removes its class. -/
def laterRemoval : List Happening :=
  [.run ⟨[.ofWords 300 .mandatory []], 32⟩ .write (.ofBytes [5]), .change (.unregister 300 .empty)]

/-- The table goes on with a class that the registry has lost. -/
theorem alike_after_removed :
    let p : FilterPipeline :=
      ⟨[.ofWords .shuffle .mandatory [2], .ofWords 300 .mandatory [], .ofWords .fletcher32 .optional []],
        32⟩
    let r := (FilterRegistry.start true).after [.register appendingClass, .isAvailable 301]
    let t : CodecTable := ⟨.write, [Shuffle.filterClass, appendingClass, Fletcher32.filterClass]⟩
    let now := Holding.after ⟨t, r⟩ laterRemoval
    let buffer : ChunkBuffer := .ofBytes [1, 2, 3, 4]
    (∀ step ∈ p.steps, step.id ≠ 32004 ∧ step.id ≠ 32015) ∧
    resolve p .write "/plugins" (fun _ => none) r = .ok t ∧
    (Engine.run p .write now.table buffer).result = .ok ⟨9, .empty⟩ ∧
    (Engine.run p .write now.registry buffer).result =
      .error (.failure (.writeFailed 300 .notRegistered)) ∧
    (Engine.run p .write now.table buffer).Alike (Engine.run p .write r buffer) ∧
    (Engine.run p .write r buffer).source = r := by
  intro p r t now buffer
  have hp : ∀ step ∈ p.steps, step.id ≠ 32004 ∧ step.id ≠ 32015 := by decide
  have ht : resolve p .write "/plugins" (fun _ => none) r = .ok t := by rfl
  exact ⟨hp, ht, by decide +kernel, by decide +kernel,
    alike_after [.register appendingClass, .isAvailable 301] hp ht laterRemoval .write buffer⟩

end FilteredChunks.CodecTable
