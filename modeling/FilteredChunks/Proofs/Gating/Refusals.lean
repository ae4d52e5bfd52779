import FilteredChunks.Gating
import FilteredChunks.Proofs.Pipeline.Built
import Mathlib.Data.List.Forall2

/-!
# Refused steps

Asking the filters of a pipeline marks refusals by position, and only those of optional steps
(`optional_of_askSteps`).  Tuning comes after it and gives steps other words, but they stay where they are
and keep their numbers and flags (`Retuned`).  So after both a refusal still stands for the step that it
was made for (`optional_of_prepare`), and the pipeline is as sound as before.
-/

namespace FilteredChunks

/-- A step that may have got other words. -/
structure FilterStep.Retuned (step step' : FilterStep) : Prop where
  id : step'.id = step.id
  flags : step'.flags = step.flags

namespace FilterStep.Retuned

theorem refl (step : FilterStep) : step.Retuned step := ⟨rfl, rfl⟩

theorem withWords (step : FilterStep) (words : List UInt32) : step.Retuned (step.withWords words) :=
  ⟨rfl, rfl⟩

theorem isOptional {step step' : FilterStep} (h : step.Retuned step') :
    step'.isOptional = step.isOptional := congrArg FilterFlags.isOptional h.flags

theorem forall₂_refl (steps : List FilterStep) : List.Forall₂ FilterStep.Retuned steps steps :=
  List.forall₂_same.2 fun step _ => refl step

end FilterStep.Retuned

namespace FilterPipeline

variable {p p' : FilterPipeline}

theorem exists_get?_of_retuned (h : List.Forall₂ FilterStep.Retuned p.steps p'.steps) {i : Nat}
    {step : FilterStep} (hstep : p.get? i = some step) :
    ∃ step', p'.get? i = some step' ∧ step.Retuned step' := by
  obtain ⟨hi, rfl⟩ := List.getElem?_eq_some_iff.1 hstep
  have hi' : i < p'.steps.length := h.length_eq ▸ hi
  exact ⟨p'.steps[i], List.getElem?_eq_getElem hi', h.get hi hi'⟩

theorem Sound.of_retuned (hp : p.Sound) (h : List.Forall₂ FilterStep.Retuned p.steps p'.steps) :
    p'.Sound := by
  have origin {step' : FilterStep} (hstep' : step' ∈ p'.steps) :
      ∃ step ∈ p.steps, step.Retuned step' := by
    obtain ⟨i, hi', rfl⟩ := List.mem_iff_getElem.1 hstep'
    have hi : i < p.steps.length := h.length_eq ▸ hi'
    exact ⟨p.steps[i], List.getElem_mem hi, h.get hi hi'⟩
  refine ⟨Nat.le_trans (Nat.le_of_eq h.length_eq.symm) hp.length_le, ?_, ?_⟩
  · intro step' hstep'
    obtain ⟨step, hstep, hretuned⟩ := origin hstep'
    rw [hretuned.id]
    exact hp.valid step hstep
  · intro step' hstep'
    obtain ⟨step, hstep, hretuned⟩ := origin hstep'
    rw [hretuned.flags]
    exact hp.definition step hstep

end FilterPipeline

namespace Gating

variable {r : FilterRegistry} {target : Target} {list : DatasetCreation} {datatype : Datatype}

/-! ### Asking -/

theorem isOptional_of_refuses {step : FilterStep} {c : FilterClass}
    (h : refuses step c target = .ok true) : step.isOptional = true := by
  unfold refuses at h
  split at h
  · cases h
  · split at h
    · assumption
    · cases h
  · cases h

/-- **Only optional steps are refused**, each at its position. -/
theorem optional_of_askSteps {steps : List (FilterStep × Nat)} {mask refused : FilterMask}
    (h : (askSteps r target steps mask).1 = .ok refused) {i : Nat} (hi : refused.isSet i = true) :
    mask.isSet i = true ∨ ∃ x ∈ steps, x.2 = i ∧ x.1.isOptional = true := by
  induction steps generalizing mask with
  | nil =>
    cases h
    exact .inl hi
  | cons x rest ih =>
    -- what the rest says of its steps it says of them all
    have later {mask : FilterMask} (h : (askSteps r target rest mask).1 = .ok refused) :
        mask.isSet i = true ∨ ∃ y ∈ x :: rest, y.2 = i ∧ y.1.isOptional = true := by
      rcases ih h with hmask | ⟨y, hy, hrest⟩
      · exact .inl hmask
      · exact .inr ⟨y, List.mem_cons_of_mem x hy, hrest⟩
    rw [askSteps] at h
    split at h
    · cases h
    · exact later h
    next c _ =>
    split at h
    · cases h
    dsimp only at h
    split at h
    · cases h
    next refused hrefuses =>
    cases refused with
    | false => exact later h
    | true =>
      rcases later h with hset | hlater
      · rw [if_pos rfl, FilterMask.isSet_set, Bool.or_eq_true, Bool.and_eq_true] at hset
        rcases hset with hset | ⟨-, hx⟩
        · exact .inl hset
        · exact .inr ⟨x, List.mem_cons_self, of_decide_eq_true hx, isOptional_of_refuses hrefuses⟩
      · exact .inr hlater

/-! ### Tuning -/

/-- **Tuning keeps every step but for its words**, even if it fails. -/
theorem retuned_tuneSteps (r : FilterRegistry) (target : Target) (steps : List FilterStep) :
    List.Forall₂ FilterStep.Retuned steps (tuneSteps r target steps).steps := by
  induction steps with
  | nil => exact .nil
  | cons step rest ih =>
    rw [tuneSteps]
    split
    · exact FilterStep.Retuned.forall₂_refl _
    · exact .cons (.refl step) ih
    next c _ =>
    dsimp only
    cases (c.codec.setLocal step target).words with
    | none =>
      split
      · exact FilterStep.Retuned.forall₂_refl _
      · exact .cons (.refl step) ih
    | some words =>
      split
      · exact .cons (.withWords step words) (FilterStep.Retuned.forall₂_refl rest)
      · exact .cons (.withWords step words) ih

theorem retuned_setLocal (list : DatasetCreation) (datatype : Datatype) (r : FilterRegistry) :
    List.Forall₂ FilterStep.Retuned list.pipeline.steps
      (setLocal list datatype r).subject.pipeline.steps := by
  unfold setLocal
  split
  · exact FilterStep.Retuned.forall₂_refl _
  · exact retuned_tuneSteps ..

/-! ### Preparing -/

theorem retuned_prepare (list : DatasetCreation) (datatype : Datatype) (r : FilterRegistry) :
    List.Forall₂ FilterStep.Retuned list.pipeline.steps
      (prepare list datatype r).list.pipeline.steps := by
  unfold prepare
  split
  · exact FilterStep.Retuned.forall₂_refl _
  · exact retuned_setLocal ..

theorem canApply_of_prepare {refused : FilterMask}
    (h : (prepare list datatype r).result = .ok refused) :
    (canApply list datatype r).1 = .ok refused := by
  unfold prepare at h
  split at h
  · cases h
  next asked events hasked =>
  rw [hasked]
  dsimp only at h
  cases htuned : (setLocal list datatype r).result with
  | error error =>
    rw [htuned] at h
    cases h
  | ok =>
    rw [htuned] at h
    exact h

/-- **A refusal stands for an optional step of the prepared pipeline.** -/
theorem optional_of_prepare {refused : FilterMask}
    (h : (prepare list datatype r).result = .ok refused) {i : Nat} (hi : refused.isSet i = true) :
    ∃ step, (prepare list datatype r).list.pipeline.get? i = some step ∧
      step.isOptional = true := by
  have hasked := canApply_of_prepare h
  unfold canApply at hasked
  split at hasked
  · cases hasked
    rw [FilterMask.isSet_empty] at hi
    cases hi
  rcases optional_of_askSteps hasked hi with hempty | ⟨⟨step, _⟩, hx, rfl, hoptional⟩
  · rw [FilterMask.isSet_empty] at hempty
    cases hempty
  obtain ⟨step', hstep', hretuned⟩ := FilterPipeline.exists_get?_of_retuned
    (retuned_prepare list datatype r) (List.mem_zipIdx_iff_getElem?.1 hx)
  exact ⟨step', hstep', hretuned.isOptional.trans hoptional⟩

end Gating

end FilteredChunks
