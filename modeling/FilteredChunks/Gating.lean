import FilteredChunks.DatasetCreation
import FilteredChunks.FilterMask
import FilteredChunks.FilterRegistry

/-!
# Gating

Before a pipeline is used for a dataset, each step's filter is asked whether it fits the data, and
then each may tune the client words of its step.  Optional steps that do not fit are marked in a mask;
writes must exclude them.  Default lists, layouts without chunks and empty pipelines pass unasked.
-/

namespace FilteredChunks.Gating

/-- A hook that was called, by the codec's origin and the class's number. -/
inductive Event
  | canApply (origin : Origin) (id : FilterId) (target : Target)
  | setLocal (origin : Origin) (id : FilterId) (target : Target)

/-- What a filter is told about the chunks of a dataset, if there is anything to ask. -/
def chunkTarget (list : DatasetCreation) (datatype : Datatype) : Option Target :=
  if list.isDefault || list.pipeline.isEmpty then none
  else list.chunkDims.map fun dims => .typed datatype (.simple dims)

/-- The answer to one step's question: whether its filter refuses. -/
def refuses (step : FilterStep) (c : FilterClass) (target : Target) : Except FilterError Bool :=
  match c.codec.canApply target with
  | .ok true => .ok false
  | .ok false =>
    if step.isOptional then .ok true else .error (.cannotApply step.id .notAppropriate)
  | .error reason => .error (.cannotApply step.id (.checkFailed reason))

/-- Asks the filters of numbered steps in order; `mask` holds the refusals so far. -/
def askSteps (r : FilterRegistry) (target : Target) :
    List (FilterStep × Nat) → FilterMask → Except FilterError FilterMask × List Event
  | [], mask => (.ok mask, [])
  | (step, index) :: rest, mask =>
    match r.find step.id step.isOptional with
    | .error error => (.error error, [])
    | .ok none => askSteps r target rest mask
    | .ok (some c) =>
      if !c.encoder then (.error (.noEncoder step.id), [])
      else
        let event := .canApply c.origin c.id target
        match refuses step c target with
        | .error error => (.error error, [event])
        | .ok refused =>
          let (result, events) := askSteps r target rest (if refused then mask.set index else mask)
          (result, event :: events)

/-- What tuning leaves: the steps, tuned up to a failure. -/
structure Tuned where
  result : Except FilterError Unit
  steps : List FilterStep
  events : List Event

/-- Lets the filters of steps tune them in order. -/
def tuneSteps (r : FilterRegistry) (target : Target) : List FilterStep → Tuned
  | [] => ⟨.ok (), [], []⟩
  | step :: rest =>
    match r.find step.id step.isOptional with
    | .error error => ⟨.error error, step :: rest, []⟩
    | .ok none =>
      let tuned := tuneSteps r target rest
      { tuned with steps := step :: tuned.steps }
    | .ok (some c) =>
      let event := .setLocal c.origin c.id target
      let tuning := c.codec.setLocal step target
      let step := match tuning.words with
        | some words => step.withWords words
        | none => step
      match tuning.result with
      | .error reason => ⟨.error (.tuningFailed step.id reason), step :: rest, [event]⟩
      | .ok () =>
        let tuned := tuneSteps r target rest
        ⟨tuned.result, step :: tuned.steps, event :: tuned.events⟩

/-- Asks every step's filter about data nothing is known of. -/
def canApplyUntyped (p : FilterPipeline) (r : FilterRegistry) :
    Except FilterError FilterMask × List Event :=
  askSteps r .untyped p.steps.zipIdx .empty

/-- The outcome of tuning a pipeline. -/
structure Tuning (α : Type) where
  result : Except FilterError Unit
  subject : α
  events : List Event

/-- Tunes a pipeline for a target. -/
def tunePipeline (p : FilterPipeline) (r : FilterRegistry) (target : Target) :
    Tuning FilterPipeline :=
  let tuned := tuneSteps r target p.steps
  ⟨tuned.result, { p with steps := tuned.steps }, tuned.events⟩

/-- Lets every step's filter tune it for data nothing is known of. -/
def setLocalUntyped (p : FilterPipeline) (r : FilterRegistry) : Tuning FilterPipeline :=
  tunePipeline p r .untyped

/-- Asks every step's filter whether it fits the chunks of a dataset; the mask marks the optional
steps that do not. -/
def canApply (list : DatasetCreation) (datatype : Datatype) (r : FilterRegistry) :
    Except FilterError FilterMask × List Event :=
  match chunkTarget list datatype with
  | none => (.ok .empty, [])
  | some target => askSteps r target list.pipeline.steps.zipIdx .empty

/-- Lets every step's filter tune it for the chunks of a dataset. -/
def setLocal (list : DatasetCreation) (datatype : Datatype) (r : FilterRegistry) :
    Tuning DatasetCreation :=
  match chunkTarget list datatype with
  | none => ⟨.ok (), list, []⟩
  | some target =>
    let tuning := tunePipeline list.pipeline r target
    ⟨tuning.result, list.withPipeline tuning.subject, tuning.events⟩

/-- What preparing a list leaves. -/
structure Prepared where
  result : Except FilterError FilterMask
  list : DatasetCreation
  events : List Event

/-- Asks every filter, and only if none objects lets them tune. -/
def prepare (list : DatasetCreation) (datatype : Datatype) (r : FilterRegistry) : Prepared :=
  match canApply list datatype r with
  | (.error error, events) => ⟨.error error, list, events⟩
  | (.ok refused, events) =>
    let tuning := setLocal list datatype r
    ⟨tuning.result.map fun () => refused, tuning.subject, events ++ tuning.events⟩

/-- Data that no filter can be applied to: nothing or one element, or elements of variable length. -/
def isUnsuitable (datatype : Datatype) (space : Dataspace) : Bool :=
  space == .null || space == .scalar || datatype.isVariableLength

/-- Whether filters are left out altogether.  With data that is unsuitable they are if every step is
optional; otherwise that is a failure. -/
def ignoreFilters (list : DatasetCreation) (datatype : Datatype) (space : Dataspace) :
    Except FilterError Bool :=
  if list.pipeline.isEmpty || !isUnsuitable datatype space then .ok false
  else if list.pipeline.steps.all (·.isOptional) then .ok true
  else .error .notSuitable

end FilteredChunks.Gating
