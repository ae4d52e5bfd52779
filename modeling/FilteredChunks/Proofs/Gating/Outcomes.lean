import FilteredChunks.Proofs.Gating.Refusals
import FilteredChunks.Proofs.Pipeline.FirstStep

/-!
# What preparing comes to

Asking the filters of a pipeline stops at the first step that offends (`Offends`), with the failure that belongs
to the offence; nothing has been tuned by then.  If no step offends, the filters tune their steps one after the
other, up to the first that fails.  `Comes` lists what preparing can come to, with all that was asked
for and the list as it is left, and `comes_prepare` says that it comes to one of these.

Whatever it comes to, only client words have changed (`SameButWords`).
-/

namespace FilteredChunks

/-! ### Lists that differ in words -/

/-- Only the client words of a step may differ. -/
def FilterStep.Reworded (step step' : FilterStep) : Prop := { step' with data := step.data } = step

/-- Only the client words of steps may differ. -/
structure DatasetCreation.SameButWords (list list' : DatasetCreation) : Prop where
  rest : { list' with pipeline := list.pipeline } = list
  slots : list'.pipeline.slots = list.pipeline.slots
  steps : List.Forall₂ FilterStep.Reworded list.pipeline.steps list'.pipeline.steps

/-- The list with other steps in its pipeline. -/
def DatasetCreation.withSteps (list : DatasetCreation) (steps : List FilterStep) : DatasetCreation :=
  list.withPipeline { list.pipeline with steps := steps }

theorem FilterStep.Reworded.forall₂_refl (steps : List FilterStep) :
    List.Forall₂ FilterStep.Reworded steps steps :=
  List.forall₂_same.2 fun _ _ => rfl

theorem DatasetCreation.sameButWords_withSteps {list : DatasetCreation} {steps : List FilterStep}
    (h : List.Forall₂ FilterStep.Reworded list.pipeline.steps steps) :
    list.SameButWords (list.withSteps steps) := ⟨rfl, rfl, h⟩

namespace Gating

variable {r : FilterRegistry} {target : Target} {step : FilterStep}

/-! ### Asking -/

/-- The ways in which a step offends, each with its failure. -/
inductive Offends (r : FilterRegistry) (target : Target) (step : FilterStep) : FilterError → Prop
  | unregistered (hc : r.get? step.id = none) (hm : step.isOptional = false) :
      Offends r target step (.filterNotRegistered step.id)
  | noEncoder (c : FilterClass) (hc : r.get? step.id = some c) (he : c.encoder = false) :
      Offends r target step (.noEncoder step.id)
  | unknown (c : FilterClass) (hc : r.get? step.id = some c) (he : c.encoder = true) (reason : String)
      (ha : c.codec.canApply target = .error reason) :
      Offends r target step (.cannotApply step.id (.checkFailed reason))
  | unfit (c : FilterClass) (hc : r.get? step.id = some c) (he : c.encoder = true)
      (ha : c.codec.canApply target = .ok false) (hm : step.isOptional = false) :
      Offends r target step (.cannotApply step.id .notAppropriate)

/-- No objection is made to a step. -/
def Fits (r : FilterRegistry) (target : Target) (step : FilterStep) : Prop :=
  ¬ ∃ error, Offends r target step error

/-- The filter of an optional step says that it does not fit. -/
def Refused (r : FilterRegistry) (target : Target) (step : FilterStep) : Prop :=
  step.isOptional = true ∧ ∃ c, r.get? step.id = some c ∧ c.codec.canApply target = .ok false

/-- What is asked about a step.  Nothing is asked of a filter that is not registered or cannot encode. -/
def asked (r : FilterRegistry) (target : Target) (step : FilterStep) : List Event :=
  match r.get? step.id with
  | some c => if c.encoder then [.canApply c.origin c.id target] else []
  | none => []

theorem askSteps_of_offends {error : FilterError} (h : Offends r target step error) (index : Nat)
    (rest : List (FilterStep × Nat)) (mask : FilterMask) :
    askSteps r target ((step, index) :: rest) mask = (.error error, asked r target step) := by
  unfold askSteps FilterRegistry.find asked
  cases h with
  | unregistered hc hm => simp [hc, hm]
  | noEncoder c hc he => simp [hc, he]
  | unknown c hc he reason ha => simp [hc, he, refuses, ha]
  | unfit c hc he ha hm => simp [hc, he, refuses, ha, hm]

theorem askSteps_of_fits (h : Fits r target step) (index : Nat) (rest : List (FilterStep × Nat))
    (mask : FilterMask) :
    ∃ mask' : FilterMask,
      (∀ i, mask'.isSet i = true ↔
        mask.isSet i = true ∨ i < 32 ∧ index = i ∧ Refused r target step) ∧
      askSteps r target ((step, index) :: rest) mask =
        ((askSteps r target rest mask').1, asked r target step ++ (askSteps r target rest mask').2) := by
  have unmarked (hno : ¬ Refused r target step) (i : Nat) : mask.isSet i = true ↔
      mask.isSet i = true ∨ i < 32 ∧ index = i ∧ Refused r target step := by simp [hno]
  cases hc : r.get? step.id with
  | none =>
    have hoptional : step.isOptional = true := by
      by_contra hm
      exact h ⟨_, .unregistered hc (by simpa using hm)⟩
    refine ⟨mask, unmarked (fun hrefused => ?_), ?_⟩
    · obtain ⟨-, c, hc', -⟩ := hrefused
      cases hc.symm.trans hc'
    · simp [askSteps, FilterRegistry.find, asked, hc, hoptional]
  | some c =>
    have he : c.encoder = true := by
      by_contra he
      exact h ⟨_, .noEncoder c hc (by simpa using he)⟩
    cases ha : c.codec.canApply target with
    | error reason => exact absurd ⟨_, .unknown c hc he reason ha⟩ h
    | ok fits =>
      cases fits with
      | true =>
        refine ⟨mask, unmarked (fun hrefused => ?_), ?_⟩
        · obtain ⟨-, c', hc', ha'⟩ := hrefused
          cases Option.some.inj (hc.symm.trans hc')
          cases ha.symm.trans ha'
        · simp [askSteps, FilterRegistry.find, asked, refuses, hc, he, ha]
      | false =>
        have hoptional : step.isOptional = true := by
          by_contra hm
          exact h ⟨_, .unfit c hc he ha (by simpa using hm)⟩
        have hrefused : Refused r target step := ⟨hoptional, c, hc, ha⟩
        refine ⟨mask.set index, fun i => ?_, ?_⟩
        · by_cases hi : index = i
          · subst hi
            simp [FilterMask.isSet_set, hrefused]
          · simp [FilterMask.isSet_set, hi]
        · simp [askSteps, FilterRegistry.find, asked, refuses, hc, he, ha, hoptional]

/-- **Asking stops at the first step that offends**, with its failure. -/
theorem askSteps_append_offends {before after : List (FilterStep × Nat)} {x : FilterStep × Nat}
    {error : FilterError} (hbefore : ∀ y ∈ before, Fits r target y.1)
    (h : Offends r target x.1 error) (mask : FilterMask) :
    askSteps r target (before ++ x :: after) mask =
      (.error error, (before.flatMap fun y => asked r target y.1) ++ asked r target x.1) := by
  induction before generalizing mask with
  | nil => exact askSteps_of_offends h x.2 after mask
  | cons y before ih =>
    obtain ⟨mask', -, hstep⟩ := askSteps_of_fits (hbefore y List.mem_cons_self) y.2
      (before ++ x :: after) mask
    rw [List.cons_append, hstep, ih fun z hz => hbefore z (List.mem_cons_of_mem _ hz),
      List.flatMap_cons, List.append_assoc]

/-- **Steps that all fit are all asked**, and those refused are marked. -/
theorem askSteps_of_forall_fits {steps : List (FilterStep × Nat)}
    (h : ∀ x ∈ steps, Fits r target x.1) (mask : FilterMask) :
    ∃ refused : FilterMask,
      (∀ i, refused.isSet i = true ↔
        mask.isSet i = true ∨ i < 32 ∧ ∃ x ∈ steps, x.2 = i ∧ Refused r target x.1) ∧
      askSteps r target steps mask = (.ok refused, steps.flatMap fun x => asked r target x.1) := by
  induction steps generalizing mask with
  | nil => exact ⟨mask, by simp, rfl⟩
  | cons x rest ih =>
    obtain ⟨mask', hmask', hstep⟩ := askSteps_of_fits (h x List.mem_cons_self) x.2 rest mask
    obtain ⟨refused, hrefused, hrest⟩ := ih (fun y hy => h y (List.mem_cons_of_mem _ hy)) mask'
    refine ⟨refused, fun i => ?_, ?_⟩
    · rw [hrefused, hmask', or_assoc, ← and_or_left]
      simp
    · rw [hstep, hrest, List.flatMap_cons]

theorem flatMap_asked_zipIdx (r : FilterRegistry) (target : Target) (steps : List FilterStep) (n : Nat) :
    ((steps.zipIdx n).flatMap fun x => asked r target x.1) = steps.flatMap (asked r target) := by
  rw [← List.flatMap_map Prod.fst, List.zipIdx_map_fst]

theorem askSteps_zipIdx_offends {before after : List FilterStep} {error : FilterError}
    (hbefore : ∀ s ∈ before, Fits r target s) (h : Offends r target step error) :
    askSteps r target (before ++ step :: after).zipIdx .empty =
      (.error error, before.flatMap (asked r target) ++ asked r target step) := by
  rw [List.zipIdx_append, List.zipIdx_cons, ← flatMap_asked_zipIdx r target before 0]
  exact askSteps_append_offends
    (fun y hy => hbefore y.1 (List.mem_of_getElem? (List.mem_zipIdx_iff_getElem?.1 hy))) h .empty

theorem askSteps_zipIdx_of_forall_fits {steps : List FilterStep} (h : ∀ s ∈ steps, Fits r target s) :
    ∃ refused : FilterMask,
      (∀ i, refused.isSet i = true ↔ i < FilterPipeline.maxSteps ∧
        ∃ step, steps[i]? = some step ∧ Refused r target step) ∧
      askSteps r target steps.zipIdx .empty = (.ok refused, steps.flatMap (asked r target)) := by
  have hfits (x : FilterStep × Nat) (hx : x ∈ steps.zipIdx) : Fits r target x.1 :=
    h x.1 (List.mem_of_getElem? (List.mem_zipIdx_iff_getElem?.1 hx))
  obtain ⟨refused, hrefused, hasked⟩ := askSteps_of_forall_fits hfits .empty
  refine ⟨refused, fun i => (hrefused i).trans ?_, ?_⟩
  · rw [FilterMask.isSet_empty]
    constructor
    · rintro (hfalse | ⟨hi, x, hx, rfl, hx'⟩)
      · cases hfalse
      · exact ⟨hi, x.1, List.mem_zipIdx_iff_getElem?.1 hx, hx'⟩
    · rintro ⟨hi, step, hstep, hstep'⟩
      exact .inr ⟨hi, (step, i), List.mem_zipIdx_iff_getElem?.2 hstep, rfl, hstep'⟩
  · rw [hasked, flatMap_asked_zipIdx]

/-! ### Tuning -/

/-- A step as its filter leaves it, whether or not the filter fails. -/
def tuned (r : FilterRegistry) (target : Target) (step : FilterStep) : FilterStep :=
  match r.get? step.id with
  | some c =>
    match (c.codec.setLocal step target).words with
    | some words => step.withWords words
    | none => step
  | none => step

/-- The call that tunes a step, if it is registered. -/
def tunes (r : FilterRegistry) (target : Target) (step : FilterStep) : List Event :=
  match r.get? step.id with
  | some c => [.setLocal c.origin c.id target]
  | none => []

/-- The filter of a step fails to tune it. -/
def FailsToTune (r : FilterRegistry) (target : Target) (step : FilterStep) (reason : String) : Prop :=
  ∃ c, r.get? step.id = some c ∧ (c.codec.setLocal step target).result = .error reason

/-- The filter of a step, if it is registered, does not fail to tune it. -/
def Tunable (r : FilterRegistry) (target : Target) (step : FilterStep) : Prop :=
  ¬ ∃ reason, FailsToTune r target step reason

theorem reworded_tuned (r : FilterRegistry) (target : Target) (step : FilterStep) :
    step.Reworded (tuned r target step) := by
  unfold tuned
  split
  · split <;> rfl
  · rfl

theorem tuneSteps_of_fails {reason : String} (h : FailsToTune r target step reason)
    (rest : List FilterStep) :
    tuneSteps r target (step :: rest) =
      ⟨.error (.tuningFailed step.id reason), tuned r target step :: rest, tunes r target step⟩ := by
  obtain ⟨c, hc, hreason⟩ := h
  unfold tuneSteps FilterRegistry.find tuned tunes
  cases hwords : (c.codec.setLocal step target).words with
  | none => simp [hc, hreason, hwords]
  | some words => simp [hc, hreason, hwords, FilterStep.withWords]

theorem tuneSteps_of_tunable (hfits : Fits r target step) (h : Tunable r target step)
    (rest : List FilterStep) :
    tuneSteps r target (step :: rest) =
      ⟨(tuneSteps r target rest).result, tuned r target step :: (tuneSteps r target rest).steps,
        tunes r target step ++ (tuneSteps r target rest).events⟩ := by
  conv_lhs => unfold tuneSteps FilterRegistry.find
  unfold tuned tunes
  cases hc : r.get? step.id with
  | none =>
    have hoptional : step.isOptional = true := by
      by_contra hm
      exact hfits ⟨_, .unregistered hc (by simpa using hm)⟩
    simp [hoptional]
  | some c =>
    cases hresult : (c.codec.setLocal step target).result with
    | error reason => exact absurd ⟨reason, c, hc, hresult⟩ h
    | ok =>
      cases hwords : (c.codec.setLocal step target).words <;> simp [hresult, hwords]

/-- **Tuning stops at the first step whose filter fails.** -/
theorem tuneSteps_append_fails {before after : List FilterStep} {reason : String}
    (hfits : ∀ s ∈ before, Fits r target s) (hbefore : ∀ s ∈ before, Tunable r target s)
    (h : FailsToTune r target step reason) :
    tuneSteps r target (before ++ step :: after) =
      ⟨.error (.tuningFailed step.id reason), before.map (tuned r target) ++ tuned r target step :: after,
        before.flatMap (tunes r target) ++ tunes r target step⟩ := by
  induction before with
  | nil => exact tuneSteps_of_fails h after
  | cons s before ih =>
    have hrest := ih (fun y hy => hfits y (List.mem_cons_of_mem _ hy))
      fun y hy => hbefore y (List.mem_cons_of_mem _ hy)
    rw [List.cons_append, tuneSteps_of_tunable (hfits s List.mem_cons_self)
      (hbefore s List.mem_cons_self), hrest, List.map_cons, List.flatMap_cons, List.append_assoc]
    rfl

/-- **Steps whose filters do not fail are all tuned.** -/
theorem tuneSteps_of_forall_tunable {steps : List FilterStep} (hfits : ∀ s ∈ steps, Fits r target s)
    (h : ∀ s ∈ steps, Tunable r target s) :
    tuneSteps r target steps =
      ⟨.ok (), steps.map (tuned r target), steps.flatMap (tunes r target)⟩ := by
  induction steps with
  | nil => rfl
  | cons s steps ih =>
    have hrest := ih (fun y hy => hfits y (List.mem_cons_of_mem _ hy))
      fun y hy => h y (List.mem_cons_of_mem _ hy)
    rw [tuneSteps_of_tunable (hfits s List.mem_cons_self) (h s List.mem_cons_self), hrest,
      List.map_cons, List.flatMap_cons]

/-! ### Preparing -/

/-- What the filters of a list's pipeline are told, where there is anything to ask. -/
structure Asks (list : DatasetCreation) (datatype : Datatype) (target : Target) : Prop where
  own : list.isDefault = false
  steps : list.pipeline.isEmpty = false
  target : ∃ dims, list.layout = .chunked dims ∧ target = .typed datatype (.simple dims)

/-- What preparing a list can come to. -/
inductive Comes (list : DatasetCreation) (datatype : Datatype) (r : FilterRegistry) : Prepared → Prop
  | idle (h : list.isDefault = true ∨ (∀ dims, list.layout ≠ .chunked dims) ∨
        list.pipeline.isEmpty = true) :
      Comes list datatype r ⟨.ok .empty, list, []⟩
  /-- A step offends, and those before it do not. -/
  | objected {target : Target} {before after : List FilterStep} {step : FilterStep}
      {error : FilterError} (hasks : Asks list datatype target)
      (hsteps : list.pipeline.steps = before ++ step :: after)
      (hbefore : ∀ s ∈ before, Fits r target s) (hstep : Offends r target step error) :
      Comes list datatype r
        ⟨.error error, list, before.flatMap (asked r target) ++ asked r target step⟩
  /-- No step offends, and the filter of one fails to tune it, but of none before it. -/
  | interrupted {target : Target} {before after : List FilterStep} {step : FilterStep} {reason : String}
      (hasks : Asks list datatype target) (hfits : ∀ s ∈ list.pipeline.steps, Fits r target s)
      (hsteps : list.pipeline.steps = before ++ step :: after)
      (hbefore : ∀ s ∈ before, Tunable r target s)
      (hstep : FailsToTune r target step reason) :
      Comes list datatype r
        ⟨.error (.tuningFailed step.id reason),
          list.withSteps (before.map (tuned r target) ++ tuned r target step :: after),
          list.pipeline.steps.flatMap (asked r target) ++
            (before.flatMap (tunes r target) ++ tunes r target step)⟩
  /-- No step offends, and all are tuned. -/
  | finished {target : Target} {refused : FilterMask} (hasks : Asks list datatype target)
      (hfits : ∀ s ∈ list.pipeline.steps, Fits r target s)
      (htuned : ∀ s ∈ list.pipeline.steps, Tunable r target s)
      (hrefused : ∀ i, refused.isSet i = true ↔
        i < FilterPipeline.maxSteps ∧ ∃ step, list.pipeline.get? i = some step ∧ Refused r target step) :
      Comes list datatype r
        ⟨.ok refused, list.withSteps (list.pipeline.steps.map (tuned r target)),
          list.pipeline.steps.flatMap (asked r target) ++
            list.pipeline.steps.flatMap (tunes r target)⟩

variable {list : DatasetCreation} {datatype : Datatype}

theorem chunkTarget_eq_none (h : chunkTarget list datatype = none) :
    list.isDefault = true ∨ (∀ dims, list.layout ≠ .chunked dims) ∨
      list.pipeline.isEmpty = true := by
  unfold chunkTarget at h
  split at h
  · next hidle =>
    rcases Bool.or_eq_true_iff.1 hidle with hdefault | hempty
    · exact .inl hdefault
    · exact .inr (.inr hempty)
  · refine .inr (.inl fun dims hdims => ?_)
    simp [DatasetCreation.chunkDims, hdims] at h

theorem asks_of_chunkTarget (h : chunkTarget list datatype = some target) :
    Asks list datatype target := by
  unfold chunkTarget at h
  split at h
  · cases h
  next hasks =>
  rw [Bool.or_eq_true, not_or, Bool.not_eq_true, Bool.not_eq_true] at hasks
  obtain ⟨dims, hdims, rfl⟩ := Option.map_eq_some_iff.1 h
  refine ⟨hasks.1, hasks.2, dims, ?_, rfl⟩
  unfold DatasetCreation.chunkDims at hdims
  split at hdims
  · next hlayout =>
    cases hdims
    exact hlayout
  · cases hdims

theorem prepare_of_chunkTarget (h : chunkTarget list datatype = some target) :
    prepare list datatype r =
      match askSteps r target list.pipeline.steps.zipIdx .empty with
      | (.error error, events) => ⟨.error error, list, events⟩
      | (.ok refused, events) =>
        let tuned := tuneSteps r target list.pipeline.steps
        ⟨tuned.result.map fun () => refused, list.withSteps tuned.steps, events ++ tuned.events⟩ := by
  rw [prepare, canApply, setLocal, h]
  rfl

/-- **Preparing a list comes to one of the four.** -/
theorem comes_prepare (list : DatasetCreation) (datatype : Datatype) (r : FilterRegistry) :
    Comes list datatype r (prepare list datatype r) := by
  cases htarget : chunkTarget list datatype with
  | none =>
    have hidle : prepare list datatype r = ⟨.ok .empty, list, []⟩ := by
      rw [prepare, canApply, setLocal, htarget]
      rfl
    rw [hidle]
    exact .idle (chunkTarget_eq_none htarget)
  | some target =>
    have hasks := asks_of_chunkTarget htarget
    rw [prepare_of_chunkTarget htarget]
    rcases exists_first_or_forall (fun s => ∃ error, Offends r target s error) list.pipeline.steps with
      hfits | ⟨before, step, after, hsteps, hbefore, error, hstep⟩
    · obtain ⟨refused, hrefused, hasked⟩ := askSteps_zipIdx_of_forall_fits hfits
      rw [hasked]
      rcases exists_first_or_forall (fun s => ∃ reason, FailsToTune r target s reason)
          list.pipeline.steps with
        htuned | ⟨before, step, after, hsteps, hbefore, reason, hstep⟩
      · rw [tuneSteps_of_forall_tunable hfits htuned]
        exact .finished hasks hfits htuned hrefused
      · have hfits' (s : FilterStep) (hs : s ∈ before) : Fits r target s :=
          hfits s (hsteps ▸ List.mem_append_left _ hs)
        have htune : tuneSteps r target list.pipeline.steps = _ :=
          (congrArg (tuneSteps r target) hsteps).trans (tuneSteps_append_fails hfits' hbefore hstep)
        rw [htune]
        exact .interrupted hasks hfits hsteps hbefore hstep
    · have hasked : askSteps r target list.pipeline.steps.zipIdx .empty = _ :=
        (congrArg (fun steps => askSteps r target steps.zipIdx .empty) hsteps).trans
          (askSteps_zipIdx_offends hbefore hstep)
      rw [hasked]
      exact .objected hasks hsteps hbefore hstep

theorem Comes.sameButWords {prepared : Prepared} (h : Comes list datatype r prepared) :
    list.SameButWords prepared.list := by
  have same : list.SameButWords list := ⟨rfl, rfl, FilterStep.Reworded.forall₂_refl _⟩
  have reworded (target : Target) (steps : List FilterStep) :
      List.Forall₂ FilterStep.Reworded steps (steps.map (tuned r target)) :=
    List.forall₂_map_right_iff.2 (List.forall₂_same.2 fun s _ => reworded_tuned r target s)
  cases h with
  | idle => exact same
  | objected => exact same
  | @interrupted target _ after step _ _ _ hsteps =>
    refine DatasetCreation.sameButWords_withSteps ?_
    rw [hsteps]
    exact List.rel_append (reworded target _)
      (.cons (reworded_tuned r target step) (FilterStep.Reworded.forall₂_refl after))
  | finished => exact DatasetCreation.sameButWords_withSteps (reworded _ _)

/-- **What preparing comes to**: one of the four, in which only words have changed. -/
theorem outcome_prepare (list : DatasetCreation) (datatype : Datatype) (r : FilterRegistry) :
    Comes list datatype r (prepare list datatype r) ∧
      list.SameButWords (prepare list datatype r).list :=
  ⟨comes_prepare list datatype r, (comes_prepare list datatype r).sameButWords⟩

end Gating

end FilteredChunks
