import FilteredChunks.Proofs.Registry.Table

/-!
# Histories of a registry

A registry starts empty or with the built-in filters.  Then anything may be done to it in any order:
applications register and remove classes, ask for filters, and run pipelines over chunks, which may load
plugins, and the loader may change.  `Keeps` says what one action may do to the classes, and
`orderly_after` that all of that holds after every history, and that the table is sound for the most
classes that it has had.  The built-in filters stay where they are, because no action of an application
touches a predefined number, and what is loaded is appended.
-/

namespace FilteredChunks.FilterRegistry

/-- What may be done to a registry. -/
inductive Action
  | register (c : FilterClass)
  | unregister (id : FilterId) (objects : OpenObjects)
  | isAvailable (id : FilterId)
  /-- A pipeline is run over a buffer with the registry as its source. -/
  | run (pipeline : FilterPipeline) (options : Engine.Options) (buffer : ChunkBuffer)
  /-- Plugins are looked for, or are found, elsewhere. -/
  | withLoader (loader : Plugin.Loader)
  | checkCollective (enabled : Bool)

def perform (r : FilterRegistry) : Action → FilterRegistry
  | .register c => (r.register c).registry
  | .unregister id objects => (r.unregister id objects).1.registry
  | .isAvailable id => (r.isAvailable id).registry
  | .run pipeline options buffer => (Engine.run pipeline options r buffer).source
  | .withLoader loader => r.withLoader loader
  | .checkCollective enabled => { r with collectiveCheck := enabled }

def after (r : FilterRegistry) (actions : List Action) : FilterRegistry := actions.foldl perform r

/-- The largest number of classes that a registry has before, between and after actions. -/
def peak (r : FilterRegistry) : List Action → Nat
  | [] => r.classes.length
  | action :: actions => max r.classes.length ((r.perform action).peak actions)

/-- The registries that histories start with. -/
def start [Compression] (stocked : Bool) : FilterRegistry := if stocked then builtins else empty

/-- What an action does to the classes: if it fails nothing, and else only what it is for. -/
def Keeps (r : FilterRegistry) : Action → Prop
  | .register c =>
    (∀ error, (r.register c).result = .error error → (r.register c).registry = r) ∧
    ((r.register c).result = .ok () → Enters r.classes c (r.register c).registry.classes)
  | .unregister id objects =>
    (∀ error, (r.unregister id objects).1.result = .error error →
      (r.unregister id objects).1.registry = r) ∧
    ((r.unregister id objects).1.result = .ok () →
      Leaves r.classes id (r.unregister id objects).1.registry.classes)
  | .isAvailable id =>
    (∀ error, (r.isAvailable id).result = .error error → (r.isAvailable id).registry = r) ∧
    r.classes <+: (r.isAvailable id).registry.classes
  | .run pipeline options buffer =>
    r.classes <+: (Engine.run pipeline options r buffer).source.classes
  | .withLoader loader => (r.withLoader loader).classes = r.classes
  | .checkCollective enabled => (r.perform (.checkCollective enabled)).classes = r.classes

variable {r : FilterRegistry} {c : FilterClass} {id : FilterId} {n : Nat}

/-! ### The actions one by one -/

theorem register_cases (r : FilterRegistry) (c : FilterClass) :
    (∃ error, r.register c = ⟨.error error, r, []⟩) ∨
      c.id.isValid = true ∧ c.id.isPredefined = false ∧ (r.register c).result = .ok () ∧
        (r.register c).registry = r.insert c := by
  unfold register
  split
  · exact .inl ⟨_, rfl⟩
  next hvalid =>
  split
  · exact .inl ⟨_, rfl⟩
  next hfree =>
  have hc : c.id.isValid = true := by simpa using hvalid
  have henter : (r.enter c).result = .ok () ∧ (r.enter c).registry = r.insert c := by
    rw [enter, hc]
    exact ⟨rfl, rfl⟩
  exact .inr ⟨hc, by simpa using hfree, henter⟩

theorem unregister_cases (r : FilterRegistry) (id : FilterId) (objects : OpenObjects) :
    (∃ error, (r.unregister id objects).1 = ⟨.error error, r, []⟩) ∨
      id.isPredefined = false ∧ (r.unregister id objects).1.result = .ok () ∧
        ∃ i old, r.classes[i]? = some old ∧ old.id = id ∧
          (r.unregister id objects).1.registry = { r with classes := r.classes.eraseIdx i } := by
  unfold unregister
  split
  · exact .inl ⟨_, rfl⟩
  split
  · exact .inl ⟨_, rfl⟩
  next hfree =>
  split
  · exact .inl ⟨_, rfl⟩
  next i hi =>
  split
  · exact .inl ⟨_, rfl⟩
  obtain ⟨old, hold, hid⟩ := getElem?_of_position? hi
  exact .inr ⟨by simpa using hfree, rfl, i, old, hold, hid, rfl⟩

theorem isAvailable_cases (r : FilterRegistry) (id : FilterId) :
    (∃ answer, r.isAvailable id = ⟨answer, r, []⟩) ∨
      id.isValid = true ∧ r.get? id = none ∧ (r.isAvailable id).registry = (r.loadPlugin id).registry ∧
        (r.isAvailable id).result = (r.loadPlugin id).result.map Option.isSome := by
  unfold isAvailable
  split
  · exact .inl ⟨_, rfl⟩
  next hvalid =>
  split
  · exact .inl ⟨_, rfl⟩
  next habsent =>
  refine .inr ⟨by simpa using hvalid, ?_, rfl, rfl⟩
  rw [isRegistered, Bool.not_eq_true, Option.isSome_eq_false_iff, Option.isNone_iff_eq_none] at habsent
  exact get?_eq_none_iff.2 (ne_of_position? habsent)

theorem loadPlugin_error {error : FilterError} (h : (r.loadPlugin id).result = .error error) :
    (r.loadPlugin id).registry = r := by
  unfold loadPlugin at h ⊢
  split
  · rfl
  next loader hloader =>
  rw [hloader] at h
  dsimp only at h
  split
  · rfl
  next c hload =>
  rw [hload] at h
  dsimp only [enter] at h ⊢
  split
  · rfl
  · next hvalid =>
    rw [if_neg hvalid] at h
    cases h

theorem grows_isAvailable (r : FilterRegistry) (id : FilterId) :
    Grows r (r.isAvailable id).registry := by
  rcases isAvailable_cases r id with ⟨answer, heq⟩ | ⟨-, habsent, heq, -⟩
  · rw [heq]
    exact .refl r
  · rw [heq]
    exact grows_loadPlugin habsent

theorem grows_run (r : FilterRegistry) (pipeline : FilterPipeline) (options : Engine.Options)
    (buffer : ChunkBuffer) : Grows r (Engine.run pipeline options r buffer).source :=
  grows_of_fills (Engine.fills_run pipeline options r buffer)

/-! ### One action -/

/-- **What one action does**, whatever the registry. -/
theorem keeps (r : FilterRegistry) (action : Action) : Keeps r action := by
  cases action with
  | register c =>
    rcases register_cases r c with ⟨error, heq⟩ | ⟨-, -, hok, heq⟩
    · exact ⟨fun _ _ => by rw [heq], fun hok => (by rw [heq] at hok; cases hok)⟩
    · refine ⟨fun error herror => ?_, fun _ => ?_⟩
      · rw [hok] at herror
        cases herror
      · rw [heq]
        exact enters_insert r c
  | unregister id objects =>
    rcases unregister_cases r id objects with ⟨error, heq⟩ | ⟨-, hok, i, old, hold, hid, heq⟩
    · exact ⟨fun _ _ => by rw [heq], fun hok => (by rw [heq] at hok; cases hok)⟩
    · refine ⟨fun error herror => ?_, fun _ => ?_⟩
      · rw [hok] at herror
        cases herror
      · rw [heq]
        exact .removed i old hold hid
  | isAvailable id =>
    refine ⟨fun error herror => ?_, (grows_isAvailable r id).appends⟩
    rcases isAvailable_cases r id with ⟨answer, heq⟩ | ⟨-, -, heq, hresult⟩
    · rw [heq]
    · rw [heq]
      rw [hresult] at herror
      cases hload : (r.loadPlugin id).result with
      | error error => exact loadPlugin_error hload
      | ok found => rw [hload] at herror; cases herror
  | run pipeline options buffer => exact (grows_run r pipeline options buffer).appends
  | withLoader loader => rfl
  | checkCollective enabled => rfl

theorem slots_le_perform (r : FilterRegistry) (action : Action) :
    r.slots ≤ (r.perform action).slots := by
  cases action with
  | register c =>
    rcases register_cases r c with ⟨error, heq⟩ | ⟨-, -, -, heq⟩
    · rw [perform, heq]
    · rw [perform, heq]
      exact slots_le_insert r c
  | unregister id objects =>
    rcases unregister_cases r id objects with ⟨error, heq⟩ | ⟨-, -, i, old, -, -, heq⟩
    · rw [perform, heq]
    · rw [perform, heq]
  | isAvailable id => exact (grows_isAvailable r id).slots
  | run pipeline options buffer => exact (grows_run r pipeline options buffer).slots
  | withLoader loader => exact Nat.le_refl _
  | checkCollective enabled => exact Nat.le_refl _

theorem Sound.perform (h : Sound n r) (action : Action) :
    Sound (max n (r.perform action).classes.length) (r.perform action) := by
  have same {r' : FilterRegistry} (hclasses : r'.classes = r.classes) (hslots : r'.slots = r.slots) :
      Sound (max n r'.classes.length) r' := by
    rw [hclasses, Nat.max_eq_left h.held]
    exact h.congr hclasses hslots
  cases action with
  | register c =>
    rw [FilterRegistry.perform]
    rcases register_cases r c with ⟨error, heq⟩ | ⟨hvalid, -, -, heq⟩
    · exact same (by rw [heq]) (by rw [heq])
    · rw [heq]
      exact h.insert hvalid
  | unregister id objects =>
    rw [FilterRegistry.perform]
    rcases unregister_cases r id objects with ⟨error, heq⟩ | ⟨-, -, i, old, -, -, heq⟩
    · exact same (by rw [heq]) (by rw [heq])
    · have hheld := (h.eraseIdx i).held
      rw [heq, Nat.max_eq_left hheld]
      exact h.eraseIdx i
  | isAvailable id => exact (grows_isAvailable r id).sound n h
  | run pipeline options buffer => exact (grows_run r pipeline options buffer).sound n h
  | withLoader loader => exact same rfl rfl
  | checkCollective enabled => exact same rfl rfl

theorem length_le_of_not_predefined {front rest : List FilterClass} {i : Nat} {old : FilterClass}
    (hfront : ∀ c ∈ front, c.id.isPredefined = true) (hold : (front ++ rest)[i]? = some old)
    (hfree : old.id.isPredefined = false) : front.length ≤ i := by
  by_contra hlt
  rw [List.getElem?_append_left (by omega)] at hold
  have hpredefined := hfront old (List.mem_of_getElem? hold)
  rw [hfree] at hpredefined
  cases hpredefined

theorem prefix_perform {front : List FilterClass} (hfront : ∀ c ∈ front, c.id.isPredefined = true)
    (h : front <+: r.classes) (action : Action) : front <+: (r.perform action).classes := by
  obtain ⟨rest, hclasses⟩ := h
  cases action with
  | register c =>
    rw [perform]
    rcases register_cases r c with ⟨error, heq⟩ | ⟨-, hfree, -, heq⟩
    · rw [heq]
      exact ⟨rest, hclasses⟩
    rw [heq]
    have hentered : Enters (front ++ rest) c (r.insert c).classes := hclasses ▸ enters_insert r c
    generalize (r.insert c).classes = classes at hentered ⊢
    cases hentered with
    | replaced i old hold hid =>
      have hi := length_le_of_not_predefined hfront hold (hid ▸ hfree)
      rw [List.set_append_right _ _ hi]
      exact List.prefix_append _ _
    | appended =>
      rw [List.append_assoc]
      exact List.prefix_append _ _
  | unregister id objects =>
    rw [perform]
    rcases unregister_cases r id objects with ⟨error, heq⟩ | ⟨hfree, -, i, old, hold, hid, heq⟩
    · rw [heq]
      exact ⟨rest, hclasses⟩
    rw [heq, ← hclasses]
    rw [← hclasses] at hold
    have hi := length_le_of_not_predefined hfront hold (hid ▸ hfree)
    rw [List.eraseIdx_append_of_length_le hi]
    exact List.prefix_append _ _
  | isAvailable id => exact .trans ⟨rest, hclasses⟩ (grows_isAvailable r id).appends
  | run pipeline options buffer =>
    exact .trans ⟨rest, hclasses⟩ (grows_run r pipeline options buffer).appends
  | withLoader loader => exact ⟨rest, hclasses⟩
  | checkCollective enabled => exact ⟨rest, hclasses⟩

/-! ### Histories -/

theorem Sound.after (h : Sound n r) (actions : List Action) :
    Sound (max n (r.peak actions)) (r.after actions) := by
  induction actions generalizing n r with
  | nil =>
    rw [peak, Nat.max_eq_left h.held]
    exact h
  | cons action actions ih =>
    have hrest := ih (h.perform action)
    have hpeak : max n (r.peak (action :: actions)) =
        max (max n (r.perform action).classes.length) ((r.perform action).peak actions) := by
      have hheld := h.held
      have hfirst : (r.perform action).classes.length ≤ (r.perform action).peak actions := by
        cases actions with
        | nil => exact Nat.le_refl _
        | cons => exact Nat.le_max_left _ _
      rw [peak]
      omega
    rw [hpeak]
    exact hrest

theorem prefix_after {front : List FilterClass} (hfront : ∀ c ∈ front, c.id.isPredefined = true)
    (h : front <+: r.classes) (actions : List Action) : front <+: (r.after actions).classes := by
  induction actions generalizing r with
  | nil => exact h
  | cons action actions ih => exact ih (prefix_perform hfront h action)

variable [Compression]

theorem predefined_of_mem_builtin {c : FilterClass} (h : c ∈ Builtin.classes) :
    c.id.isPredefined = true := by
  simp only [Builtin.classes, List.mem_cons, List.not_mem_nil, or_false] at h
  rcases h with rfl | rfl | rfl <;> rfl

theorem sound_builtins : Sound 3 builtins := by
  have hfirst : Sound 1 (empty.insert DeflateFilter.filterClass) := sound_empty.insert (c := DeflateFilter.filterClass) rfl
  have hsecond : Sound 2 ((empty.insert DeflateFilter.filterClass).insert Shuffle.filterClass) :=
    hfirst.insert (c := Shuffle.filterClass) rfl
  exact hsecond.insert (c := Fletcher32.filterClass) rfl

theorem sound_start (stocked : Bool) : Sound (start stocked).classes.length (start stocked) := by
  cases stocked with
  | false => exact sound_empty
  | true => exact sound_builtins

/-- **A registry stays in order over every history.**  It is sound for the most classes that it has had,
the built-in filters that it started with are in the first places, and whatever is done next does to
the classes only what it is for, nothing if it fails, and gives no slots back. -/
theorem orderly_after (stocked : Bool) (actions : List Action) :
    let r := (start stocked).after actions
    Sound ((start stocked).peak actions) r ∧
    (if stocked then Builtin.classes else []) <+: r.classes ∧
    ∀ action, Keeps r action ∧ r.slots ≤ (r.perform action).slots := by
  intro r
  have hsound := (sound_start stocked).after actions
  have hpeak : (start stocked).classes.length ≤ (start stocked).peak actions := by
    cases actions with
    | nil => exact Nat.le_refl _
    | cons => exact Nat.le_max_left _ _
  rw [Nat.max_eq_right hpeak] at hsound
  refine ⟨hsound, ?_, fun action => ⟨keeps r action, slots_le_perform r action⟩⟩
  cases stocked with
  | false => exact List.nil_prefix
  | true => exact prefix_after (fun c hc => predefined_of_mem_builtin hc) List.prefix_rfl actions

end FilteredChunks.FilterRegistry
