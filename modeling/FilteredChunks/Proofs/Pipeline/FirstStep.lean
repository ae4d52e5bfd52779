import FilteredChunks.Proofs.Pipeline.Built

/-!
# Edits by number

Numbers may repeat in a pipeline.  `First` takes its steps apart at the first one with a number;
deleting removes this step, modifying gives it other flags and words, and neither touches any other step
(`editsFirst`).  The number that stands for all steps is apart: deleting it empties the pipeline, also
where a step has this number (`not_deletesFirst_all`).
-/

namespace FilteredChunks

theorem exists_first_or_forall {α : Type} (p : α → Prop) (xs : List α) :
    (∀ x ∈ xs, ¬ p x) ∨
      ∃ before x after, xs = before ++ x :: after ∧ (∀ y ∈ before, ¬ p y) ∧ p x := by
  classical
  cases hfind : xs.find? fun x => decide (p x) with
  | none => exact .inl fun x hx => by simpa using List.find?_eq_none.1 hfind x hx
  | some x =>
    obtain ⟨hx, before, after, rfl, hbefore⟩ := List.find?_eq_some_iff_append.1 hfind
    exact .inr ⟨before, x, after, rfl, fun y hy => by simpa using hbefore y hy, by simpa using hx⟩

namespace FilterPipeline

/-- A step is the first with a number, with these steps before and after it. -/
structure First (p : FilterPipeline) (id : FilterId) (before : List FilterStep) (step : FilterStep)
    (after : List FilterStep) : Prop where
  steps : p.steps = before ++ step :: after
  numbered : step.id = id
  unnumbered : ∀ s ∈ before, s.id ≠ id

/-- Deleting a number removes the first step with it and nothing else. -/
def DeletesFirst (p : FilterPipeline) (id : FilterId) : Prop :=
  ∀ before step after, p.First id before step after →
    p.delete id = .ok { p with steps := before ++ after }

/-- Modifying a number gives the first step with it the flags and words, and changes nothing else. -/
def ModifiesFirst (p : FilterPipeline) (id : FilterId) : Prop :=
  ∀ before step after, p.First id before step after → ∀ flags words, flags.isDefinition = true →
    p.modify id flags words = .ok { p with
      steps := before ++ { step with flags := flags, data := .ofWords words } :: after }

/-- What edits by number do to a pipeline. -/
structure EditsFirst (p : FilterPipeline) : Prop where
  exists_first : ∀ id, (∃ step ∈ p.steps, step.id = id) →
    ∃ before step after, p.First id before step after
  delete : ∀ id ≠ FilterId.all, p.DeletesFirst id
  /-- Deleting the number that stands for all steps removes them all. -/
  deleteAll : p.delete FilterId.all = .ok { p with steps := [] }
  modify : ∀ id, p.ModifiesFirst id
  /-- A step with a new number that is pushed and deleted leaves the steps that there were. -/
  restore : ∀ step, step.id.isValid = true → step.flags.isDefinition = true → p.length < maxSteps →
    step.id ≠ FilterId.all → (∀ s ∈ p.steps, s.id ≠ step.id) →
      ∃ p' p'', p.push step = .ok p' ∧ p'.delete step.id = .ok p'' ∧ p''.steps = p.steps

variable {p : FilterPipeline} {id : FilterId} {before after : List FilterStep} {step : FilterStep}

theorem exists_first (h : ∃ step ∈ p.steps, step.id = id) :
    ∃ before step after, p.First id before step after := by
  obtain ⟨s, hs, hid⟩ := h
  rcases exists_first_or_forall (fun step => step.id = id) p.steps with
    hnone | ⟨before, step, after, hsteps, hbefore, hstep⟩
  · exact absurd hid (hnone s hs)
  · exact ⟨before, step, after, hsteps, hstep, hbefore⟩

theorem First.findIndex? (h : p.First id before step after) :
    p.findIndex? id = some before.length := by
  have hnone : before.findIdx? (fun s => s.id == id) = none :=
    List.findIdx?_eq_none_iff.2 fun s hs => by simpa using h.unnumbered s hs
  rw [FilterPipeline.findIndex?, h.steps, List.findIdx?_append, hnone, List.findIdx?_cons]
  simp [h.numbered]

theorem First.deletes (h : p.First id before step after) (hid : id ≠ FilterId.all) :
    p.delete id = .ok { p with steps := before ++ after } := by
  have hne : p.isEmpty = false := by simp [isEmpty, h.steps]
  rw [FilterPipeline.delete, hne, if_neg Bool.false_ne_true, if_neg hid, h.findIndex?]
  simp [h.steps, List.eraseIdx_append_of_length_le]

theorem First.modifies (h : p.First id before step after) {flags : FilterFlags}
    (hflags : flags.isDefinition = true) (words : List UInt32) :
    p.modify id flags words = .ok { p with
      steps := before ++ { step with flags := flags, data := .ofWords words } :: after } := by
  rw [FilterPipeline.modify, hflags, Bool.not_true, if_neg Bool.false_ne_true, h.findIndex?]
  simp [h.steps, List.modify_eq_take_drop, FilterStep.redefine]

theorem delete_all (p : FilterPipeline) : p.delete FilterId.all = .ok { p with steps := [] } := by
  obtain ⟨steps, slots⟩ := p
  cases steps <;> rfl

/-- Pushing a step with a new number and deleting that number leaves the steps that there were. -/
theorem restores (hvalid : step.id.isValid = true) (hflags : step.flags.isDefinition = true)
    (hlength : p.length < maxSteps) (hid : step.id ≠ FilterId.all)
    (hnew : ∀ s ∈ p.steps, s.id ≠ step.id) :
    ∃ p' p'', p.push step = .ok p' ∧ p'.delete step.id = .ok p'' ∧ p''.steps = p.steps := by
  obtain ⟨p', hpush, hsteps⟩ := exists_push hvalid hflags hlength
  have hfirst : p'.First step.id p.steps step [] := ⟨hsteps, rfl, hnew⟩
  exact ⟨p', _, hpush, hfirst.deletes hid, List.append_nil _⟩

/-- **Edits by number act on the first step that has it**, in every pipeline. -/
theorem editsFirst (p : FilterPipeline) : p.EditsFirst where
  exists_first _ h := exists_first h
  delete _ hid _ _ _ h := h.deletes hid
  deleteAll := delete_all p
  modify _ _ _ _ h _ words hflags := h.modifies hflags words
  restore _ hvalid hflags hlength hid hnew := restores hvalid hflags hlength hid hnew

/-- A step of its own before one with the number that stands for all steps. -/
def numberedAll : FilterPipeline :=
  ⟨[.ofWords 5 .mandatory [7], .ofWords FilterId.all .mandatory []], 32⟩

/-- **Deleting the number of all steps is no deletion of the first**: of a pipeline that was made by
edits it takes away a step with another number. -/
theorem not_deletesFirst_all :
    numberedAll.Built ∧ FilterId.all.isValid = true ∧ ¬ numberedAll.DeletesFirst FilterId.all := by
  have hbuilt : numberedAll.Built :=
    .append (.append .empty 5 .mandatory [7] rfl) FilterId.all .mandatory [] rfl
  refine ⟨hbuilt, by decide, fun h => ?_⟩
  have hfirst : numberedAll.First FilterId.all [.ofWords 5 .mandatory [7]]
      (.ofWords FilterId.all .mandatory []) [] := ⟨rfl, rfl, by decide⟩
  have hkept := (delete_all numberedAll).symm.trans (h _ _ _ hfirst)
  cases hkept

end FilterPipeline

end FilteredChunks
