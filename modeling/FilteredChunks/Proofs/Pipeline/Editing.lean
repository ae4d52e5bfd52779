import FilteredChunks.Proofs.Pipeline.FirstStep

/-!
# Edits in place

The editing functions of `FilterPipeline` answer a new pipeline or a failure, so that a failure has no
pipeline to spoil.  A program edits the one pipeline that it has, by one assignment after the other,
and what it had assigned before it failed would stay.  The programs here are the edits written in this
way: the checks in their order, the slots set aside before the step is put in, flags changed before
words.

Each makes of every pipeline what the function makes of it, and leaves it as it was where the function
fails (`outcome_push`, `outcome_redefine`, `outcome_delete`).
-/

namespace FilteredChunks

/-- A program that edits a pipeline.  What it has changed before a failure stays changed. -/
abbrev Editing := ExceptT FilterError (StateM FilterPipeline)

namespace Editing

/-! ### What a program comes to -/

/-- The answer of a program and the pipeline it leaves. -/
def outcome {α : Type} (edit : Editing α) (p : FilterPipeline) :
    Except FilterError α × FilterPipeline :=
  (edit.run.run p).run

@[simp]
theorem outcome_pure {α : Type} (a : α) (p : FilterPipeline) :
    (pure a : Editing α).outcome p = (.ok a, p) := rfl

@[simp]
theorem outcome_throw {α : Type} (error : FilterError) (p : FilterPipeline) :
    (throw error : Editing α).outcome p = (.error error, p) := rfl

@[simp]
theorem outcome_get (p : FilterPipeline) :
    (get : Editing FilterPipeline).outcome p = (.ok p, p) := rfl

@[simp]
theorem outcome_modify (change : FilterPipeline → FilterPipeline) (p : FilterPipeline) :
    (modify change : Editing Unit).outcome p = (.ok (), change p) := rfl

/-- A failure ends a program and keeps what was changed. -/
@[simp]
theorem outcome_bind {α β : Type} (first : Editing α) (next : α → Editing β) (p : FilterPipeline) :
    (first >>= next).outcome p =
      match first.outcome p with
      | (.ok a, p') => (next a).outcome p'
      | (.error error, p') => (.error error, p') := by
  unfold outcome
  rw [ExceptT.run_bind, StateT.run_bind]
  rcases first.run.run p with ⟨error | a, p'⟩
  · rfl
  · rfl

/-! ### The edits -/

/-- Changes the step at a position. -/
def update (index : Nat) (change : FilterStep → FilterStep) : Editing Unit :=
  modify fun p => { p with steps := p.steps.modify index change }

/-- Sets slots aside if none is left, and puts a step last. -/
def push (step : FilterStep) : Editing Unit := do
  if !step.id.isValid then throw (.invalidFilterId step.id)
  if !step.flags.isDefinition then throw (.invalidFlags step.flags)
  if FilterPipeline.maxSteps ≤ (← get).length then throw .tooManyFilters
  if (← get).length = (← get).slots then
    modify fun p => { p with slots := max FilterPipeline.maxSteps (2 * p.slots) }
  modify fun p => { p with steps := p.steps ++ [step] }

/-- Gives flags to the first step with a number, and then words. -/
def redefine (id : FilterId) (flags : FilterFlags) (words : List UInt32) : Editing Unit := do
  if !flags.isDefinition then throw (.invalidFlags flags)
  match (← get).findIndex? id with
  | none => throw (.filterNotInPipeline id)
  | some index =>
    update index fun step => { step with flags := flags }
    update index fun step => step.withWords words

/-- Removes the first step with a number, or all steps. -/
def delete (id : FilterId) : Editing Unit := do
  if (← get).isEmpty then return
  if id = FilterId.all then
    modify fun p => { p with steps := [] }
    return
  match (← get).findIndex? id with
  | none => throw (.filterNotInPipeline id)
  | some index => modify fun p => { p with steps := p.steps.eraseIdx index }

/-! ### They are the functions -/

/-- What a function makes of a pipeline that is edited in place: a failure leaves it as it was. -/
def settled (p : FilterPipeline) :
    Except FilterError FilterPipeline → Except FilterError Unit × FilterPipeline
  | .ok p' => (.ok (), p')
  | .error error => (.error error, p)

variable (p : FilterPipeline)

@[simp]
theorem outcome_update (index : Nat) (change : FilterStep → FilterStep) :
    (update index change).outcome p = (.ok (), { p with steps := p.steps.modify index change }) := rfl

/-- **Pushing in place** is pushing. -/
theorem outcome_push (step : FilterStep) : (push step).outcome p = settled p (p.push step) := by
  unfold push FilterPipeline.push
  cases hid : step.id.isValid with
  | false => rfl
  | true =>
    cases hflags : step.flags.isDefinition with
    | false => rfl
    | true =>
      by_cases hfull : FilterPipeline.maxSteps ≤ p.length
      · simp [hfull, settled]
      by_cases hslots : p.length = p.slots
      · have hfull' : ¬ FilterPipeline.maxSteps ≤ p.slots := hslots ▸ hfull
        simp [hfull', hslots, settled]
      · simp [hfull, hslots, settled]

/-- **Changing flags and then words in place** is changing both. -/
theorem outcome_redefine (id : FilterId) (flags : FilterFlags) (words : List UInt32) :
    (redefine id flags words).outcome p = settled p (p.modify id flags words) := by
  unfold redefine FilterPipeline.modify
  cases hflags : flags.isDefinition with
  | false => rfl
  | true =>
    cases hfind : p.findIndex? id with
    | none => simp [hfind, settled]
    | some index =>
      have htwice : (p.steps.modify index fun step => { step with flags := flags }).modify index
          (fun step => step.withWords words) =
            p.steps.modify index fun step => step.redefine flags words := by
        rw [List.modify_modify_eq]
        rfl
      simp [hfind, settled, htwice]

/-- **Deleting in place** is deleting. -/
theorem outcome_delete (id : FilterId) : (delete id).outcome p = settled p (p.delete id) := by
  unfold delete FilterPipeline.delete
  by_cases hempty : p.isEmpty = true
  · simp [hempty, settled]
  by_cases hid : id = FilterId.all
  · simp [hempty, hid, settled]
  cases hfind : p.findIndex? id with
  | none => simp [hempty, hid, hfind, settled]
  | some index => simp [hempty, hid, hfind, settled]

end Editing

end FilteredChunks
