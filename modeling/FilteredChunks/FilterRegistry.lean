import FilteredChunks.Builtin
import FilteredChunks.CodecSource
import FilteredChunks.OpenObjects
import FilteredChunks.Plugin.Search

/-!
# The registry of filters

The classes known under their numbers, in the order of registration, and the loader that looks for
plugins where a number is not known.  Numbers are unique.  As a source of codecs the registry loads
plugins, which registers them.
-/

namespace FilteredChunks

/-- Registered classes, the number of slots set aside for them, the loader if there is one, and
whether collectively opened files are synchronised before a filter goes. -/
structure FilterRegistry where
  classes : List FilterClass
  slots : Nat
  loader : Option Plugin.Loader
  collectiveCheck : Bool

/-- The outcome of an operation on a registry. -/
structure Registering (α : Type) where
  result : Except FilterError α
  registry : FilterRegistry
  metrics : List Metrics.Update

namespace FilterRegistry

/-- The registry without classes and loader. -/
def empty : FilterRegistry := ⟨[], 0, none, false⟩

def withLoader (r : FilterRegistry) (loader : Plugin.Loader) : FilterRegistry :=
  { r with loader := some loader }

/-- The number of slots set aside at first. -/
def firstSlots : Nat := 32

def position? (r : FilterRegistry) (id : FilterId) : Option Nat :=
  r.classes.findIdx? fun c => c.id == id

/-- The class with a number. -/
def get? (r : FilterRegistry) (id : FilterId) : Option FilterClass :=
  r.classes.find? fun c => c.id == id

def isRegistered (r : FilterRegistry) (id : FilterId) : Bool := (r.position? id).isSome

def ids (r : FilterRegistry) : List FilterId := r.classes.map (·.id)

/-- Puts a class in the place of the one with its number, or at the end. -/
def insert (r : FilterRegistry) (c : FilterClass) : FilterRegistry :=
  match r.position? c.id with
  | some index => { r with classes := r.classes.set index c }
  | none =>
    let slots := if r.slots ≤ r.classes.length then max firstSlots (2 * r.slots) else r.slots
    { r with classes := r.classes ++ [c], slots := slots }

/-- What setting the size of a registry's table records. -/
def sizeMetric (r : FilterRegistry) : Metrics.Update := .set Metrics.registrySize r.classes.length

/-- The registry of the built-in filters. -/
def builtins [Compression] : FilterRegistry := Builtin.classes.foldl insert empty

/-- What making the registry of the built-in filters records. -/
def builtinMetrics [Compression] : List Metrics.Update :=
  (List.range Builtin.classes.length).map fun i => .set Metrics.registrySize (i + 1)

/-- Registers a class, whoever it comes from. -/
def enter (r : FilterRegistry) (c : FilterClass) : Registering Unit :=
  if !c.id.isValid then ⟨.error (.invalidFilterId c.id), r, []⟩
  else
    let r := r.insert c
    ⟨.ok (), r, [r.sizeMetric, .count Metrics.registered 1]⟩

/-- Registers a class of an application, whose number must not be predefined. -/
def register (r : FilterRegistry) (c : FilterClass) : Registering Unit :=
  if !c.id.isValid then ⟨.error (.invalidFilterId c.id), r, []⟩
  else if c.id.isPredefined then ⟨.error (.predefinedFilter c.id), r, []⟩
  else r.enter c

/-- The class with a number.  If there is none, that is a failure unless the look-up is
speculative. -/
def find (r : FilterRegistry) (id : FilterId) (speculative : Bool) :
    Except FilterError (Option FilterClass) :=
  match r.get? id with
  | some c => .ok (some c)
  | none => if speculative then .ok none else .error (.filterNotRegistered id)

/-- Looks for a plugin and registers what it describes. -/
def loadPlugin (r : FilterRegistry) (id : FilterId) : Registering (Option FilterClass) :=
  match r.loader with
  | none => ⟨.ok none, r, []⟩
  | some loader =>
    match loader.load id with
    | none =>
      ⟨.ok none, r, [.sample Metrics.pluginLatency 0, .count Metrics.pluginsMissed 1]⟩
    | some c =>
      let entered := r.enter c
      ⟨entered.result.map fun () => some c, entered.registry,
        [.sample Metrics.pluginLatency 0, .count Metrics.pluginsLoaded 1] ++ entered.metrics⟩

/-- Whether a filter is registered or can be loaded, which registers it. -/
def isAvailable (r : FilterRegistry) (id : FilterId) : Registering Bool :=
  if !id.isValid then ⟨.error (.invalidFilterId id), r, []⟩
  else if r.isRegistered id then ⟨.ok true, r, []⟩
  else
    let loading := r.loadPlugin id
    { loading with result := loading.result.map Option.isSome }

/-- Every step of a pipeline is registered; nothing is loaded. -/
def allRegistered (r : FilterRegistry) (p : FilterPipeline) : Bool :=
  p.steps.all fun step => r.isRegistered step.id

/-- Which kinds of open objects are looked at for a use of a filter, in this order. -/
def visitedKinds : List ObjectKind := [.dataset, .group]

/-- Fails if an open object of one of the kinds uses the filter. -/
def refuseIfUsed (objects : OpenObjects) (id : FilterId) : List ObjectKind → OpenObjects.Asked Unit
  | [] => (.ok (), [])
  | kind :: kinds =>
    match OpenObjects.uses kind id (objects.pipelines kind).zipIdx with
    | (.error error, events) => (.error error, events)
    | (.ok true, events) => (.error (.filterInUse id kind), events)
    | (.ok false, events) => (refuseIfUsed objects id kinds).after events

/-- What open objects must allow before a filter goes: that none of them uses it, and the flushing of
all writable files. -/
def release (r : FilterRegistry) (id : FilterId) (objects : OpenObjects) : OpenObjects.Asked Unit :=
  match refuseIfUsed objects id visitedKinds with
  | (.error error, events) => (.error error, events)
  | (.ok (), events) =>
    (OpenObjects.flushFiles r.collectiveCheck false objects.files.zipIdx).after events

/-- Removes the class of an application, if nothing open uses it, and lists what open objects were
asked for. -/
def unregister (r : FilterRegistry) (id : FilterId) (objects : OpenObjects) :
    Registering Unit × List OpenObjects.Event :=
  if !id.isValid then (⟨.error (.invalidFilterId id), r, []⟩, [])
  else if id.isPredefined then (⟨.error (.predefinedFilter id), r, []⟩, [])
  else
    match r.position? id with
    | none => (⟨.error (.filterNotRegistered id), r, []⟩, [])
    | some index =>
      match r.release id objects with
      | (.error error, events) => (⟨.error error, r, []⟩, events)
      | (.ok (), events) =>
        let r := { r with classes := r.classes.eraseIdx index }
        (⟨.ok (), r, [.count Metrics.unregistered 1, r.sizeMetric]⟩, events)

instance : CodecSource FilterRegistry where
  codec r _ step := r.get? step.id
  load r step :=
    let loading := r.loadPlugin step.id
    ⟨loading.result, loading.registry, loading.metrics⟩

end FilterRegistry

end FilteredChunks
