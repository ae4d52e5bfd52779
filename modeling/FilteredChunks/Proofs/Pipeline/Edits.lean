import FilteredChunks.Proofs.Gating.Refusals
import FilteredChunks.Proofs.Pipeline.Editing

/-!
# One edit

`Edit` lists what may be done to a pipeline: the calls that push, append, modify and delete, and a
filter that gives a step other words.  An edit is done in place (`Edit.editing`), which is the function
`Edit.make` (`Edit.outcome_editing`).

Beside the pipeline stands what its steps were given (`GivenStep`): no storage, no slots, the words as
they were handed over.  Only a step that is pushed may come with client data that were not made of words,
as those read from a text need not be; they are kept as they are.  `Edit.intend` says what an edit is to
make of what was given, and why it is refused.  An edit makes of the steps just this (`map_make`), keeps a
pipeline sound (`sound_make`), and sets slots aside once and for all (`slots_make`).
-/

namespace FilteredChunks

/-- Client data as they are given. -/
inductive GivenData
  /-- Words, wherever they are to be kept. -/
  | words (words : List UInt32)
  /-- Data that were not made of words. -/
  | raw (data : ClientData)
  deriving DecidableEq

namespace GivenData

/-- What is kept of the data. -/
def kept : GivenData → ClientData
  | words ws => .ofWords ws
  | raw data => data

/-- Data are given as words if they are just what is made of their words. -/
def of (data : ClientData) : GivenData :=
  if data = .ofWords data.words then words data.words else raw data

@[simp]
theorem kept_of (data : ClientData) : (of data).kept = data := by
  unfold of
  split
  · next h => exact h.symm
  · rfl

@[simp]
theorem of_ofWords (ws : List UInt32) : of (.ofWords ws) = words ws := by
  rw [of, ClientData.words_ofWords, if_pos rfl]

end GivenData

/-- A step as it is given. -/
structure GivenStep where
  id : FilterId
  flags : FilterFlags
  name : Option String
  data : GivenData
  deriving DecidableEq

namespace GivenStep

def step (given : GivenStep) : FilterStep := ⟨given.id, given.flags, given.name, given.data.kept⟩

/-- A whole step, as it is given. -/
def of (step : FilterStep) : GivenStep := ⟨step.id, step.flags, step.name, .of step.data⟩

@[simp]
theorem step_of (step : FilterStep) : (of step).step = step := by
  rw [GivenStep.step, of, GivenData.kept_of]

/-- A step that is given words reports them, and has them inline if and only if they fit. -/
theorem words?_step {given : GivenStep} {ws : List UInt32} (h : given.data = .words ws) :
    given.step.words? = some ws ∧ (given.step.data.isInline = true ↔ ws.length ≤ inlineWords) := by
  rw [FilterStep.words?, step, h]
  refine ⟨ClientData.words?_ofWords ws, ?_⟩
  exact (ClientData.isInline_ofWords ws).symm ▸ decide_eq_true_iff

/-- Gives the first step with a number other flags and words. -/
def redefineFirst (id : FilterId) (flags : FilterFlags) (words : List UInt32) :
    List GivenStep → List GivenStep
  | [] => []
  | given :: rest =>
    if given.id = id then { given with flags := flags, data := .words words } :: rest
    else given :: redefineFirst id flags words rest

theorem redefineFirst_append {id : FilterId} {before after : List GivenStep} {given : GivenStep}
    (hbefore : ∀ g ∈ before, g.id ≠ id) (hid : given.id = id) (flags : FilterFlags)
    (words : List UInt32) :
    redefineFirst id flags words (before ++ given :: after) =
      before ++ { given with flags := flags, data := .words words } :: after := by
  induction before with
  | nil => exact if_pos hid
  | cons g before ih =>
    rw [List.cons_append, redefineFirst, if_neg (hbefore g List.mem_cons_self),
      ih fun g' hg' => hbefore g' (List.mem_cons_of_mem _ hg'), List.cons_append]

theorem mem_redefineFirst {id : FilterId} {flags : FilterFlags} {words : List UInt32}
    {steps : List GivenStep} {given : GivenStep} (h : given ∈ redefineFirst id flags words steps) :
    given ∈ steps ∨ given.data = .words words := by
  induction steps with
  | nil => cases h
  | cons g steps ih =>
    rw [redefineFirst] at h
    split at h
    · rcases List.mem_cons.1 h with rfl | h
      · exact .inr rfl
      · exact .inl (List.mem_cons_of_mem g h)
    · rcases List.mem_cons.1 h with rfl | h
      · exact .inl List.mem_cons_self
      · exact (ih h).imp_left (List.mem_cons_of_mem g)

theorem map_tune (words : List UInt32) (steps : List GivenStep) (index : Nat) :
    (steps.modify index fun given => { given with data := .words words }).map step =
      (steps.map step).modify index fun step => step.withWords words := by
  induction steps generalizing index with
  | nil => simp
  | cons given steps ih =>
    cases index with
    | zero => rfl
    | succ index => simp [ih]

end GivenStep

/-- What may be done to a pipeline. -/
inductive Edit
  | push (step : FilterStep)
  | append (id : FilterId) (flags : FilterFlags) (words : List UInt32)
  | modify (id : FilterId) (flags : FilterFlags) (words : List UInt32)
  | delete (id : FilterId)
  /-- A filter gives the step at a position other words. -/
  | tune (index : Nat) (words : List UInt32)

namespace Edit

/-- The edit as it is done in place. -/
def editing : Edit → Editing Unit
  | push step => .push step
  | append id flags words => .push (.ofWords id flags words)
  | modify id flags words => .redefine id flags words
  | delete id => .delete id
  | tune index words => .update index fun step => step.withWords words

/-- The edit as a function. -/
def make (p : FilterPipeline) : Edit → Except FilterError FilterPipeline
  | push step => p.push step
  | append id flags words => p.append id flags words
  | modify id flags words => p.modify id flags words
  | delete id => p.delete id
  | tune index words => .ok { p with steps := p.steps.modify index fun step => step.withWords words }

/-- Whether the edit is to put a step in. -/
def IsPush : Edit → Prop
  | push _ => True
  | append .. => True
  | _ => False

/-- A step is put in last, if nothing is against it. -/
def enter (steps : List GivenStep) (given : GivenStep) : Except FilterError (List GivenStep) :=
  if ¬ given.id.isValid then .error (.invalidFilterId given.id)
  else if ¬ given.flags.isDefinition then .error (.invalidFlags given.flags)
  else if FilterPipeline.maxSteps ≤ steps.length then .error .tooManyFilters
  else .ok (steps ++ [given])

/-- What the edit is to make of what has been given, or why it is refused. -/
def intend (steps : List GivenStep) : Edit → Except FilterError (List GivenStep)
  | push step => enter steps (.of step)
  | append id flags words => enter steps ⟨id, flags, none, .words words⟩
  | modify id flags words =>
    if ¬ flags.isDefinition then .error (.invalidFlags flags)
    else if ∃ given ∈ steps, given.id = id then .ok (GivenStep.redefineFirst id flags words steps)
    else .error (.filterNotInPipeline id)
  | delete id =>
    if steps = [] ∨ id = FilterId.all then .ok []
    else if ∃ given ∈ steps, given.id = id then .ok (steps.eraseP fun given => given.id == id)
    else .error (.filterNotInPipeline id)
  | tune index words => .ok (steps.modify index fun given => { given with data := .words words })

end Edit

/-- Every step was given words. -/
def GivenWords (steps : List GivenStep) : Prop := ∀ given ∈ steps, ∃ ws, given.data = .words ws

theorem GivenWords.enter {steps steps' : List GivenStep} {given : GivenStep}
    (hsteps : GivenWords steps) (hgiven : ∃ ws, given.data = .words ws)
    (h : Edit.enter steps given = .ok steps') : GivenWords steps' := by
  unfold Edit.enter at h
  split at h
  · cases h
  split at h
  · cases h
  split at h
  · cases h
  cases h
  intro g hg
  rcases List.mem_append.1 hg with hg | hg
  · exact hsteps g hg
  · exact List.mem_singleton.1 hg ▸ hgiven

theorem GivenWords.intend {steps steps' : List GivenStep} {edit : Edit} (hsteps : GivenWords steps)
    (hmade : ∀ step, edit = .push step → ∃ ws, step.data = .ofWords ws)
    (h : edit.intend steps = .ok steps') : GivenWords steps' := by
  cases edit with
  | push step =>
    obtain ⟨ws, hws⟩ := hmade step rfl
    exact hsteps.enter ⟨ws, by rw [GivenStep.of, hws, GivenData.of_ofWords]⟩ h
  | append id flags words => exact hsteps.enter ⟨words, rfl⟩ h
  | modify id flags words =>
    simp only [Edit.intend] at h
    split at h
    · cases h
    split at h
    · cases h
      intro g hg
      rcases GivenStep.mem_redefineFirst hg with hg | hg
      · exact hsteps g hg
      · exact ⟨words, hg⟩
    · cases h
  | delete id =>
    simp only [Edit.intend] at h
    split at h
    · cases h
      nofun
    split at h
    · cases h
      exact fun g hg => hsteps g (List.mem_of_mem_eraseP hg)
    · cases h
  | tune index words =>
    cases h
    intro g hg
    obtain ⟨i, hi, rfl⟩ := List.mem_iff_getElem.1 hg
    rw [List.length_modify] at hi
    rw [List.getElem_modify]
    split
    · exact ⟨words, rfl⟩
    · exact hsteps _ (List.getElem_mem hi)

/-! ### One edit -/

section Edit

variable {p p' : FilterPipeline} {steps : List GivenStep} {edit : Edit}

/-- Done in place, an edit is the function. -/
theorem Edit.outcome_editing (edit : Edit) (p : FilterPipeline) :
    edit.editing.outcome p = Editing.settled p (edit.make p) := by
  cases edit with
  | push step => exact Editing.outcome_push p step
  | append id flags words => exact Editing.outcome_push p (.ofWords id flags words)
  | modify id flags words => exact Editing.outcome_redefine p id flags words
  | delete id => exact Editing.outcome_delete p id
  | tune index words => rfl

theorem map_push (h : p.steps = steps.map GivenStep.step) (given : GivenStep) :
    (p.push given.step).map (·.steps) = (Edit.enter steps given).map (List.map GivenStep.step) := by
  have hlength : p.length = steps.length := by simp [FilterPipeline.length, h]
  unfold FilterPipeline.push Edit.enter
  rw [hlength]
  cases hid : given.id.isValid with
  | false => simp [GivenStep.step, hid, Except.map]
  | true =>
    cases hflags : given.flags.isDefinition with
    | false => simp [GivenStep.step, hid, hflags, Except.map]
    | true =>
      by_cases hfull : FilterPipeline.maxSteps ≤ steps.length
      · simp [GivenStep.step, hid, hflags, hfull, Except.map]
      · simp [GivenStep.step, hid, hflags, hfull, Except.map, h]

theorem first_of_append {before after : List GivenStep} {given : GivenStep} {id : FilterId}
    (h : p.steps = (before ++ given :: after).map GivenStep.step)
    (hbefore : ∀ g ∈ before, ¬ g.id = id) (hid : given.id = id) :
    p.First id (before.map GivenStep.step) given.step (after.map GivenStep.step) where
  steps := by rw [h, List.map_append, List.map_cons]
  numbered := hid
  unnumbered := List.forall_mem_map.2 hbefore

theorem findIndex?_eq_none (h : p.steps = steps.map GivenStep.step) {id : FilterId}
    (hnone : ∀ given ∈ steps, ¬ given.id = id) : p.findIndex? id = none := by
  rw [FilterPipeline.findIndex?, List.findIdx?_eq_none_iff, h]
  exact List.forall_mem_map.2 fun given hgiven => beq_eq_false_iff_ne.2 (hnone given hgiven)

theorem map_modify (h : p.steps = steps.map GivenStep.step) (id : FilterId) (flags : FilterFlags)
    (words : List UInt32) :
    (p.modify id flags words).map (·.steps) =
      ((Edit.modify id flags words).intend steps).map (List.map GivenStep.step) := by
  simp only [Edit.intend]
  cases hflags : flags.isDefinition with
  | false => simp [FilterPipeline.modify, hflags, Except.map]
  | true =>
    rcases exists_first_or_forall (fun given => given.id = id) steps with
      hnone | ⟨before, given, after, rfl, hbefore, hid⟩
    · have hnone' : ¬ ∃ given ∈ steps, given.id = id := by simpa using hnone
      simp [FilterPipeline.modify, hflags, findIndex?_eq_none h hnone, hnone', Except.map]
    · have hmem : ∃ g ∈ before ++ given :: after, g.id = id := ⟨given, by simp, hid⟩
      rw [(first_of_append h hbefore hid).modifies hflags, if_neg (by simp), if_pos hmem,
        GivenStep.redefineFirst_append hbefore hid]
      simp [Except.map, GivenStep.step, GivenData.kept]

theorem map_delete (h : p.steps = steps.map GivenStep.step) (id : FilterId) :
    (p.delete id).map (·.steps) = ((Edit.delete id).intend steps).map (List.map GivenStep.step) := by
  simp only [Edit.intend]
  have hempty : p.isEmpty = true ↔ steps = [] := by simp [FilterPipeline.isEmpty, h]
  by_cases hnil : steps = []
  · simp [FilterPipeline.delete, hempty.2 hnil, hnil, h, Except.map]
  by_cases hall : id = FilterId.all
  · simp [hall, FilterPipeline.delete_all, Except.map]
  rw [if_neg (not_or.2 ⟨hnil, hall⟩)]
  rcases exists_first_or_forall (fun given => given.id = id) steps with
    hnone | ⟨before, given, after, rfl, hbefore, hid⟩
  · have hnone' : ¬ ∃ given ∈ steps, given.id = id := by simpa using hnone
    simp [FilterPipeline.delete, hempty, hnil, hall, findIndex?_eq_none h hnone, hnone', Except.map]
  · have hmem : ∃ g ∈ before ++ given :: after, g.id = id := ⟨given, by simp, hid⟩
    have herase : (before ++ given :: after).eraseP (fun g => g.id == id) = before ++ after := by
      rw [List.eraseP_append_right _ fun g hg => by simpa using hbefore g hg,
        List.eraseP_cons_of_pos (by simpa using hid)]
    rw [(first_of_append h hbefore hid).deletes hall, if_pos hmem, herase]
    simp [Except.map]

/-- **An edit makes of the steps what it makes of the steps given**, and is refused for the same. -/
theorem map_make (h : p.steps = steps.map GivenStep.step) (edit : Edit) :
    (edit.make p).map (·.steps) = (edit.intend steps).map (List.map GivenStep.step) := by
  cases edit with
  | push step =>
    have hpush := map_push h (.of step)
    rwa [GivenStep.step_of] at hpush
  | append id flags words => exact map_push h ⟨id, flags, none, .words words⟩
  | modify id flags words => exact map_modify h id flags words
  | delete id => exact map_delete h id
  | tune index words => simp [Edit.make, Edit.intend, Except.map, h, GivenStep.map_tune]

theorem forall₂_modify_retuned (words : List UInt32) :
    ∀ (steps : List FilterStep) (index : Nat),
      List.Forall₂ FilterStep.Retuned steps (steps.modify index fun step => step.withWords words)
  | [], index => by
    rw [List.modify_nil]
    exact .nil
  | step :: steps, 0 => .cons (.withWords step words) (FilterStep.Retuned.forall₂_refl steps)
  | step :: steps, index + 1 => .cons (.refl step) (forall₂_modify_retuned words steps index)

theorem sound_make (hp : p.Sound) (h : edit.make p = .ok p') : p'.Sound := by
  cases edit with
  | push step => exact hp.push h
  | append id flags words => exact hp.push h
  | modify id flags words => exact hp.modify h
  | delete id => exact hp.of_sublist (FilterPipeline.delete_eq_ok h)
  | tune index words =>
    cases h
    exact hp.of_retuned (forall₂_modify_retuned words p.steps index)

/-- No slots are set aside yet, and none are needed, or as many as a pipeline may have steps. -/
def FilterPipeline.HasSlots (p : FilterPipeline) : Prop :=
  p.steps = [] ∧ p.slots = 0 ∨ p.slots = FilterPipeline.maxSteps

theorem slots_push (hp : p.HasSlots) {step : FilterStep} (h : p.push step = .ok p') :
    p'.slots = FilterPipeline.maxSteps := by
  have hlength := (FilterPipeline.push_eq_ok h).2.2.1
  unfold FilterPipeline.push at h
  split at h
  · cases h
  split at h
  · cases h
  rw [if_neg (Nat.not_le.2 hlength)] at h
  cases h
  rcases hp with ⟨hsteps, hslots⟩ | hslots
  · have hfull : p.length = p.slots := by rw [hslots, FilterPipeline.length, hsteps, List.length_nil]
    exact (if_pos hfull).trans (by rw [hslots, Nat.mul_zero, Nat.max_zero])
  · have hroom : p.length ≠ p.slots := fun heq => absurd (heq.trans hslots) (Nat.ne_of_lt hlength)
    exact (if_neg hroom).trans hslots

theorem slots_make_of_isPush (hp : p.HasSlots) (hedit : edit.IsPush) (h : edit.make p = .ok p') :
    p'.slots = FilterPipeline.maxSteps := by
  cases edit with
  | push step => exact slots_push hp h
  | append id flags words => exact slots_push hp h
  | modify | delete | tune => exact hedit.elim

theorem slots_make (hedit : ¬ edit.IsPush) (h : edit.make p = .ok p') :
    p'.slots = p.slots ∧ (p.steps = [] → p'.steps = []) := by
  cases edit with
  | push step => exact absurd trivial hedit
  | append id flags words => exact absurd trivial hedit
  | modify id flags words =>
    obtain ⟨-, index, -, hsteps⟩ := FilterPipeline.modify_eq_ok h
    simp only [Edit.make, FilterPipeline.modify] at h
    refine ⟨?_, fun hnil => by rw [hsteps, hnil, List.modify_nil]⟩
    split at h
    · cases h
    split at h <;> cases h
    rfl
  | delete id =>
    have hsub := FilterPipeline.delete_eq_ok h
    simp only [Edit.make, FilterPipeline.delete] at h
    refine ⟨?_, fun hnil => List.sublist_nil.1 (hnil ▸ hsub)⟩
    split at h
    · cases h
      rfl
    split at h
    · cases h
      rfl
    split at h <;> cases h
    rfl
  | tune index words =>
    cases h
    exact ⟨rfl, fun hnil => by simp [hnil]⟩

end Edit

end FilteredChunks
