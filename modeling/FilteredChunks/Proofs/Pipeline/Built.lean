import FilteredChunks.FilterPipeline
import Mathlib.Tactic.Common

/-!
# Pipelines that edits can make

`Built p` says that `p` comes from the empty pipeline by accepted edits and by copying; a refused edit
changes nothing.  Every such pipeline is `Sound` (`Built.sound`): it has at most 32 steps, so that every step
has a bit in a mask, its numbers are valid, and its steps carry definition flags only.
-/

namespace FilteredChunks.FilterPipeline

/-- Pipelines made from the empty one by accepted edits, and copies of such. -/
inductive Built : FilterPipeline → Prop
  | empty : Built .empty
  | push {p p' : FilterPipeline} (hp : Built p) (step : FilterStep) (h : p.push step = .ok p') :
      Built p'
  | append {p p' : FilterPipeline} (hp : Built p) (id : FilterId) (flags : FilterFlags)
      (words : List UInt32) (h : p.append id flags words = .ok p') : Built p'
  | modify {p p' : FilterPipeline} (hp : Built p) (id : FilterId) (flags : FilterFlags)
      (words : List UInt32) (h : p.modify id flags words = .ok p') : Built p'
  | delete {p p' : FilterPipeline} (hp : Built p) (id : FilterId) (h : p.delete id = .ok p') :
      Built p'
  | copy {p : FilterPipeline} (hp : Built p) : Built p.copy

/-- What the engine relies on. -/
structure Sound (p : FilterPipeline) : Prop where
  length_le : p.length ≤ maxSteps
  valid : ∀ step ∈ p.steps, step.id.isValid = true
  definition : ∀ step ∈ p.steps, step.flags.isDefinition = true

/-! ### What an accepted edit did -/

theorem push_eq_ok {p p' : FilterPipeline} {step : FilterStep} (h : p.push step = .ok p') :
    step.id.isValid = true ∧ step.flags.isDefinition = true ∧ p.length < maxSteps ∧
      p'.steps = p.steps ++ [step] := by
  unfold push at h
  split at h
  · contradiction
  next hid =>
  split at h
  · contradiction
  next hflags =>
  split at h
  · contradiction
  next hlength =>
  cases h
  refine ⟨?_, ?_, Nat.lt_of_not_le hlength, rfl⟩
  · simpa using hid
  · simpa using hflags

theorem exists_push {p : FilterPipeline} {step : FilterStep} (hid : step.id.isValid = true)
    (hflags : step.flags.isDefinition = true) (hlength : p.length < maxSteps) :
    ∃ p', p.push step = .ok p' ∧ p'.steps = p.steps ++ [step] := by
  unfold push
  rw [if_neg (by simp [hid]), if_neg (by simp [hflags]), if_neg (Nat.not_le.2 hlength)]
  exact ⟨_, rfl, rfl⟩

theorem modify_eq_ok {p p' : FilterPipeline} {id : FilterId} {flags : FilterFlags}
    {words : List UInt32} (h : p.modify id flags words = .ok p') :
    flags.isDefinition = true ∧ ∃ index, p.findIndex? id = some index ∧
      p'.steps = p.steps.modify index fun s => s.redefine flags words := by
  unfold modify at h
  split at h
  · contradiction
  next hflags =>
  split at h
  · next index hindex =>
    cases h
    exact ⟨by simpa using hflags, index, hindex, rfl⟩
  · contradiction

theorem delete_eq_ok {p p' : FilterPipeline} {id : FilterId} (h : p.delete id = .ok p') :
    p'.steps.Sublist p.steps := by
  unfold delete at h
  split at h
  · cases h
    exact List.Sublist.refl _
  split at h
  · cases h
    exact List.nil_sublist _
  split at h
  · cases h
    exact List.eraseIdx_sublist ..
  · contradiction

/-! ### Soundness -/

theorem Sound.of_sublist {p p' : FilterPipeline} (hp : p.Sound) (h : p'.steps.Sublist p.steps) :
    p'.Sound where
  length_le := Nat.le_trans h.length_le hp.length_le
  valid step hstep := hp.valid step (h.subset hstep)
  definition step hstep := hp.definition step (h.subset hstep)

theorem Sound.push {p p' : FilterPipeline} {step : FilterStep} (hp : p.Sound)
    (h : p.push step = .ok p') : p'.Sound := by
  obtain ⟨hid, hflags, hlength, hsteps⟩ := push_eq_ok h
  have hmem : ∀ s ∈ p'.steps, s ∈ p.steps ∨ s = step := by
    intro s hs
    simpa [hsteps] using hs
  refine ⟨?_, ?_, ?_⟩
  · unfold length at hlength ⊢
    rw [hsteps, List.length_append, List.length_singleton]
    exact hlength
  · intro s hs
    rcases hmem s hs with hs | rfl
    · exact hp.valid s hs
    · exact hid
  · intro s hs
    rcases hmem s hs with hs | rfl
    · exact hp.definition s hs
    · exact hflags

theorem Sound.modify {p p' : FilterPipeline} {id : FilterId} {flags : FilterFlags}
    {words : List UInt32} (hp : p.Sound) (h : p.modify id flags words = .ok p') : p'.Sound := by
  obtain ⟨hflags, index, -, hsteps⟩ := modify_eq_ok h
  -- a step of the result is a step of before, but for its flags and words if it was redefined
  have hmem : ∀ s ∈ p'.steps, ∃ s₀ ∈ p.steps, s.id = s₀.id ∧
      (s.flags = s₀.flags ∨ s.flags = flags) := by
    intro s hs
    rw [hsteps] at hs
    obtain ⟨i, hi, rfl⟩ := List.mem_iff_getElem.1 hs
    rw [List.length_modify] at hi
    refine ⟨p.steps[i], List.getElem_mem hi, ?_⟩
    rw [List.getElem_modify]
    split
    · exact ⟨rfl, .inr rfl⟩
    · exact ⟨rfl, .inl rfl⟩
  refine ⟨?_, ?_, ?_⟩
  · have := hp.length_le
    unfold length at this ⊢
    rwa [hsteps, List.length_modify]
  · intro s hs
    obtain ⟨s₀, hs₀, hid, -⟩ := hmem s hs
    rw [hid]
    exact hp.valid s₀ hs₀
  · intro s hs
    obtain ⟨s₀, hs₀, -, hf | hf⟩ := hmem s hs
    · rw [hf]
      exact hp.definition s₀ hs₀
    · rw [hf]
      exact hflags

/-- **Edits keep a pipeline sound.** -/
theorem Built.sound {p : FilterPipeline} (h : Built p) : p.Sound := by
  induction h with
  | empty => exact ⟨Nat.zero_le _, by simp [FilterPipeline.empty], by simp [FilterPipeline.empty]⟩
  | push _ step h ih => exact ih.push h
  | append _ id flags words h ih => exact ih.push h
  | modify _ id flags words h ih => exact ih.modify h
  | delete _ id h ih => exact ih.of_sublist (delete_eq_ok h)
  | copy _ ih => exact ih.of_sublist (List.Sublist.refl _)

end FilteredChunks.FilterPipeline
