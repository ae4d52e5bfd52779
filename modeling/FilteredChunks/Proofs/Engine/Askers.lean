import FilteredChunks.Proofs.Engine.Course

/-!
# Which steps the events of a run are for

Before anything else is done for a step its class is looked up by position, and until the next look-up
everything asked for is for the same step.  So a log tells by itself which step a codec was called for,
even where steps share a number (`withAskers`).

`Asked` describes what one step asks for; `asked_of_runStep` says that a step asks in this way or, masked,
for nothing.  By induction every event of a run is for a step that the run did not exclude
(`isForOneOf_of_mem_run`).
-/

namespace FilteredChunks.Engine

/-- The position that is looked up; other events name none. -/
def Event.position? : Event → Option Nat
  | .lookup index _ => some index
  | _ => none

/-- An event that can be for a step: it has the position, the number or the words of the step. -/
def Event.IsFor (options : Options) (index : Nat) (step : FilterStep) : Event → Prop
  | .lookup i id => i = index ∧ id = step.id
  | .load id => id = step.id
  | .call _ _ flags words _ _ => flags = step.flags ||| options.callFlags ∧ words = step.words
  | .callback id _ => id = step.id

/-- Each event with the position of the step that it is for, the one last looked up. -/
def withAskers : Option Nat → List Event → List (Option Nat × Event)
  | _, [] => []
  | current, event :: rest =>
    let asker := event.position?.or current
    (asker, event) :: withAskers asker rest

/-- Everything that is asked for on behalf of a step: first it is looked up, and no other step is. -/
structure Asked (options : Options) (index : Nat) (step : FilterStep) (asked : List Event) :
    Prop where
  isFor : ∀ event ∈ asked, event.IsFor options index step
  looked : ∃ rest, asked = .lookup index step.id :: rest ∧ ∀ event ∈ rest, event.position? = none

/-! ### Askers -/

theorem withAskers_append_lookup (current : Option Nat) (log rest : List Event) (index : Nat)
    (id : FilterId) :
    withAskers current (log ++ .lookup index id :: rest) =
      withAskers current log ++ withAskers (some index) (.lookup index id :: rest) := by
  induction log generalizing current with
  | nil => rfl
  | cons event log ih =>
    rw [List.cons_append, withAskers, withAskers, ih, List.cons_append]

theorem withAskers_of_position?_eq_none {index : Nat} {log : List Event}
    (h : ∀ event ∈ log, event.position? = none) :
    withAskers (some index) log = log.map fun event => (some index, event) := by
  induction log with
  | nil => rfl
  | cons event log ih =>
    rw [withAskers, h event List.mem_cons_self]
    dsimp only [Option.none_or]
    rw [ih fun e he => h e (List.mem_cons_of_mem event he), List.map_cons]

variable {options : Options} {index : Nat} {step : FilterStep} {asked : List Event}

theorem Asked.withAskers_append (h : Asked options index step asked) (current : Option Nat)
    (log : List Event) :
    withAskers current (log ++ asked) =
      withAskers current log ++ asked.map fun event => (some index, event) := by
  obtain ⟨rest, rfl, hrest⟩ := h.looked
  rw [withAskers_append_lookup, withAskers, List.map_cons]
  dsimp only [Event.position?, Option.some_or]
  rw [withAskers_of_position?_eq_none hrest]

/-! ### One step -/

theorem asked_lookup : Asked options index step [.lookup index step.id] := by
  refine ⟨fun event hevent => ?_, [], rfl, nofun⟩
  rw [List.mem_singleton.1 hevent]
  exact ⟨rfl, rfl⟩

theorem Asked.concat (h : Asked options index step asked) {event : Event}
    (hfor : event.IsFor options index step) (hnone : event.position? = none) :
    Asked options index step (asked ++ [event]) := by
  obtain ⟨rest, rfl, hrest⟩ := h.looked
  constructor
  · intro e he
    rcases List.mem_append.1 he with he | he
    · exact h.isFor e he
    · rw [List.mem_singleton.1 he]
      exact hfor
  · refine ⟨rest ++ [event], rfl, fun e he => ?_⟩
    rcases List.mem_append.1 he with he | he
    · exact hrest e he
    · rw [List.mem_singleton.1 he]
      exact hnone

variable {σ : Type} {c : FilterClass} {p p' q : Progress σ} {fault : Fault}

/-- The log has grown by what a step asked for. -/
def Progress.AsksFor (p p' : Progress σ) (options : Options) (index : Nat) (step : FilterStep) :
    Prop :=
  ∃ asked, p'.events = p.events ++ asked ∧ Asked options index step asked

theorem Progress.asksFor_lookup :
    p.AsksFor (p.note (.lookup index step.id)) options index step := ⟨_, rfl, asked_lookup⟩

theorem Progress.AsksFor.note (h : p.AsksFor q options index step) {event : Event}
    (hfor : event.IsFor options index step) (hnone : event.position? = none) :
    p.AsksFor (q.note event) options index step := by
  obtain ⟨asked, hevents, hasked⟩ := h
  refine ⟨asked ++ [event], ?_, hasked.concat hfor hnone⟩
  rw [Progress.note, hevents, List.append_assoc]

theorem Progress.AsksFor.callback (h : p.AsksFor q options index step) (seen : Bytes) :
    p.AsksFor (q.note (.callback step.id seen)) options index step := by
  have hfor : (Event.callback step.id seen).IsFor options index step := rfl
  exact h.note hfor rfl

variable [CodecSource σ]

theorem Progress.asksFor_loading : p.AsksFor (p.loading index step) options index step := by
  have hload : (Event.load step.id).IsFor options index step := rfl
  exact (asksFor_lookup.note hload rfl : p.AsksFor _ options index step)

theorem Finds.asksFor (h : Finds options index step p c q) : p.AsksFor q options index step := by
  cases h with
  | known => exact Progress.asksFor_lookup
  | loaded => exact Progress.asksFor_loading

theorem Finds.asksFor_call (h : Finds options index step p c q) :
    p.AsksFor (q.noteCall c (step.flags ||| options.callFlags) step.words) options index step :=
  h.asksFor.note ⟨rfl, rfl⟩ rfl

theorem Passes.asksFor (h : Passes options index step p p') (hm : p.mask.isSet index = false) :
    p.AsksFor p' options index step := by
  cases h with
  | masked hset => cases hm.symm.trans hset
  | absent => exact Progress.asksFor_lookup
  | applied _ c q hc n data => exact hc.asksFor_call
  | forgiven _ c q p' hc data ht hf =>
    cases hf with
    | optional => exact hc.asksFor_call
    | rescued callback seen => exact hc.asksFor_call.callback seen

theorem Stops.asksFor (h : Stops options index step p fault p') :
    p.AsksFor p' options index step := by
  cases h with
  | unregistered => exact Progress.asksFor_lookup
  | unloaded => exact Progress.asksFor_loading
  | unreadable _ c q hc => exact hc.asksFor
  | crashed _ c q hc => exact hc.asksFor_call
  | condemned _ c q p' hc data ht fault hf =>
    cases hf with
    | unasked => exact hc.asksFor_call
    | refused callback seen => exact hc.asksFor_call.callback seen
    | unseen => exact hc.asksFor_call

/-- **A step asks for nothing if it is masked**, and for what is its own otherwise. -/
theorem asksFor_of_runStep {result : Except Fault Unit}
    (h : runStep options index step p = (result, p')) :
    p.mask.isSet index = true ∧ p' = p ∨
      p.mask.isSet index = false ∧ p.AsksFor p' options index step := by
  cases hm : p.mask.isSet index with
  | true =>
    rw [runStep_masked hm] at h
    cases h
    exact .inl ⟨rfl, rfl⟩
  | false =>
    cases result with
    | ok => exact .inr ⟨rfl, (passes_of_runStep h).asksFor hm⟩
    | error fault => exact .inr ⟨rfl, (stops_of_runStep h).asksFor⟩

/-! ### A run -/

variable {exclude : FilterMask} {steps all : List (FilterStep × Nat)} {result : Except Fault Unit}

/-- An event is for one of some steps, which is not excluded. -/
def IsForOneOf (options : Options) (exclude : FilterMask) (steps : List (FilterStep × Nat))
    (a : Option Nat × Event) : Prop :=
  ∃ x ∈ steps, a.1 = some x.2 ∧ exclude.isSet x.2 = false ∧ a.2.IsFor options x.2 x.1

omit [CodecSource σ] in
theorem IsForOneOf.mono {exclude' : FilterMask} {a : Option Nat × Event}
    (h : IsForOneOf options exclude' steps a)
    (hsub : ∀ i, exclude.isSet i = true → exclude'.isSet i = true) :
    IsForOneOf options exclude steps a := by
  obtain ⟨x, hx, hasker, hfree, hfor⟩ := h
  refine ⟨x, hx, hasker, ?_, hfor⟩
  cases hset : exclude.isSet x.2 with
  | false => rfl
  | true => exact (hsub x.2 hset).symm.trans hfree

theorem isForOneOf_of_runStep {x : FilterStep × Nat} (hx : x ∈ all)
    (hmask : ∀ i, exclude.isSet i = true → p.mask.isSet i = true)
    (hp : ∀ a ∈ withAskers none p.events, IsForOneOf options exclude all a)
    (h : runStep options x.2 x.1 p = (result, p')) :
    ∀ a ∈ withAskers none p'.events, IsForOneOf options exclude all a := by
  rcases asksFor_of_runStep h with ⟨-, rfl⟩ | ⟨hm, asked, hevents, hasked⟩
  · exact hp
  rw [hevents, hasked.withAskers_append]
  intro a ha
  rcases List.mem_append.1 ha with hbefore | hnew
  · exact hp a hbefore
  obtain ⟨event, hevent, rfl⟩ := List.mem_map.1 hnew
  have hfree : exclude.isSet x.2 = false := by
    cases hset : exclude.isSet x.2 with
    | false => rfl
    | true => exact (hmask x.2 hset).symm.trans hm
  exact ⟨x, hx, rfl, hfree, hasked.isFor event hevent⟩

theorem isForOneOf_of_runSteps (hsteps : ∀ x ∈ steps, x ∈ all)
    (hmask : ∀ i, exclude.isSet i = true → p.mask.isSet i = true)
    (hp : ∀ a ∈ withAskers none p.events, IsForOneOf options exclude all a)
    (h : runSteps options steps p = (result, p')) :
    ∀ a ∈ withAskers none p'.events, IsForOneOf options exclude all a := by
  induction steps generalizing p with
  | nil =>
    cases h
    exact hp
  | cons x rest ih =>
    have hx := hsteps x List.mem_cons_self
    rw [runSteps] at h
    split at h
    · next p₁ hstep =>
      -- what is excluded stays masked
      have hmask₁ (i : Nat) (hi : exclude.isSet i = true) : p₁.mask.isSet i = true :=
        (passes_of_runStep hstep).isSet (hmask i hi)
      exact ih (fun y hy => hsteps y (List.mem_cons_of_mem x hy)) hmask₁
        (isForOneOf_of_runStep hx hmask hp hstep) h
    · next fault p₁ hstep =>
      cases h
      exact isForOneOf_of_runStep hx hmask hp hstep

/-- **Every event of a run is for a step that is not excluded.** -/
theorem isForOneOf_of_mem_run {pipeline : FilterPipeline} {source : σ} {buffer : ChunkBuffer}
    {a : Option Nat × Event}
    (h : a ∈ withAskers none (run pipeline options source buffer).events) :
    IsForOneOf options options.exclude pipeline.steps.zipIdx a := by
  unfold run at h
  split at h
  · cases h
  split at h
  · cases h
  have hall (x : FilterStep × Nat) (hx : x ∈ ordered options.direction pipeline.steps) :
      x ∈ pipeline.steps.zipIdx := List.mem_zipIdx_iff_getElem?.2 (mem_ordered_iff.1 hx)
  rcases hsteps : runSteps options (ordered options.direction pipeline.steps)
    ⟨buffer, options.exclude, source, [], []⟩ with ⟨result, p⟩
  rw [hsteps] at h
  exact isForOneOf_of_runSteps hall (fun _ hi => hi) (fun _ hnone => absurd hnone List.not_mem_nil)
    hsteps a h

end FilteredChunks.Engine
