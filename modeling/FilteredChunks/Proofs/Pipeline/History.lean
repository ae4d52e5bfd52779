import FilteredChunks.Json.Records
import FilteredChunks.Proofs.Pipeline.Edits
import Mathlib.Data.List.Induction

/-!
# What edits have made of a pipeline

A pipeline starts empty and is edited in place; an edit that fails is followed by the next one on what
it has left (`edited`).  `intended` is what the steps were given, edit by edit.  `Represents` says what
the pipeline owes to that and to the limits which the engine takes for granted, and
`represents_edited` that it does after every history of edits.

Filters come in by `Edit.tune`: what tuning leaves of a pipeline is what such edits make of it, each
with the words that a filter answered for the step (`exists_hooks`).
-/

namespace FilteredChunks

namespace Edit

/-- The empty pipeline after edits in place, whatever they answered. -/
def edited (edits : List Edit) : FilterPipeline :=
  edits.foldl (fun p edit => (edit.editing.outcome p).2) .empty

/-- What the steps were given after an edit; one that is refused gives nothing. -/
def giving (steps : List GivenStep) (edit : Edit) : List GivenStep :=
  match edit.intend steps with
  | .ok steps' => steps'
  | .error _ => steps

/-- What the steps were last given by edits. -/
def intended (edits : List Edit) : List GivenStep := edits.foldl giving []

/-- Some edit has put a step in. -/
def Pushed (edits : List Edit) : Prop :=
  ∃ before edit, before ++ [edit] <+: edits ∧ edit.IsPush ∧
    (edit.editing.outcome (edited before)).1 = .ok ()

/-- A filter has answered words for the step at a position. -/
def Answered (r : FilterRegistry) (target : Target) (steps : List FilterStep)
    (hook : Nat × List UInt32) : Prop :=
  ∃ step c, steps[hook.1]? = some step ∧ r.get? step.id = some c ∧
    (c.codec.setLocal step target).words = some hook.2

/-- The edits that filters make by their answers. -/
def tunes (hooks : List (Nat × List UInt32)) : List Edit := hooks.map fun hook => tune hook.1 hook.2

end Edit

open Edit

/-- What a pipeline owes to the edits that have made it. -/
structure FilterPipeline.Represents (p : FilterPipeline) (edits : List Edit) : Prop where
  /-- The steps have the numbers, flags and names that they were given, and the client data in the form
  that these are kept in. -/
  steps : p.steps = (intended edits).map GivenStep.step
  /-- A step that was last given words reports those, and has them inline if and only if there are at
  most four. -/
  words : ∀ (index : Nat) (given : GivenStep) (ws : List UInt32),
    (intended edits)[index]? = some given → given.data = .words ws →
      ∃ step, p.steps[index]? = some step ∧ step.words? = some ws ∧
        (step.data.isInline = true ↔ ws.length ≤ 4)
  /-- Unless steps are pushed with client data that were not made of words, all steps were given words. -/
  made : (∀ step, Edit.push step ∈ edits → ∃ ws, step.data = .ofWords ws) → GivenWords (intended edits)
  length_le : p.length ≤ 32
  valid : ∀ step ∈ p.steps, 0 ≤ step.id ∧ step.id ≤ 65535
  definition : ∀ step ∈ p.steps, step.flags.bits.toNat ≤ 0x00ff
  slots_before : ¬ Pushed edits → p.slots = 0
  slots_after : Pushed edits → p.slots = 32
  /-- A further edit is accepted, or refused for the cause that it is to be refused for. -/
  answers : ∀ edit : Edit,
    (edit.editing.outcome p).1 = (edit.intend (intended edits)).map fun _ => ()
  /-- An edit that fails has changed nothing. -/
  unchanged : ∀ (edit : Edit) (error : FilterError) (p' : FilterPipeline),
    edit.editing.outcome p = (.error error, p') → p' = p
  /-- Filters that tune the pipeline only do what edits with their words do. -/
  tuned : ∀ (r : FilterRegistry) (target : Target), ∃ hooks : List (Nat × List UInt32),
    (∀ hook ∈ hooks, Answered r target p.steps hook) ∧
      (Gating.tunePipeline p r target).subject = edited (edits ++ tunes hooks)

/-! ### Edits in a row -/

section Run

variable {edits : List Edit} {edit : Edit}

theorem edited_concat (edits : List Edit) (edit : Edit) :
    edited (edits ++ [edit]) = (edit.editing.outcome (edited edits)).2 := by
  rw [edited, List.foldl_append]
  rfl

theorem intended_concat (edits : List Edit) (edit : Edit) :
    intended (edits ++ [edit]) = giving (intended edits) edit := by
  rw [intended, List.foldl_append]
  rfl

theorem pushed_concat : Pushed (edits ++ [edit]) ↔
    Pushed edits ∨ edit.IsPush ∧ (edit.editing.outcome (edited edits)).1 = .ok () := by
  unfold Pushed
  simp only [List.prefix_concat_iff]
  constructor
  · rintro ⟨before, e, heq | hprefix, he⟩
    · obtain ⟨rfl, rfl⟩ := List.append_singleton_inj.1 heq
      exact .inr he
    · exact .inl ⟨before, e, hprefix, he⟩
  · rintro (⟨before, e, hprefix, he⟩ | he)
    · exact ⟨before, e, .inr hprefix, he⟩
    · exact ⟨edits, edit, .inl rfl, he⟩

theorem edited_concat_cases (edits : List Edit) (edit : Edit) :
    (∃ p', edit.make (edited edits) = .ok p' ∧ edited (edits ++ [edit]) = p' ∧
      (Pushed (edits ++ [edit]) ↔ Pushed edits ∨ edit.IsPush)) ∨
    (∃ error, edit.make (edited edits) = .error error ∧ edited (edits ++ [edit]) = edited edits ∧
      (Pushed (edits ++ [edit]) ↔ Pushed edits)) := by
  rw [pushed_concat, edited_concat, edit.outcome_editing]
  cases hmake : edit.make (edited edits) with
  | ok p' => exact .inl ⟨p', rfl, rfl, by simp [Editing.settled]⟩
  | error error => exact .inr ⟨error, rfl, rfl, by simp [Editing.settled]⟩

/-- **The steps are those given.** -/
theorem steps_edited (edits : List Edit) :
    (edited edits).steps = (intended edits).map GivenStep.step := by
  induction edits using List.reverseRecOn with
  | nil => rfl
  | append_singleton edits edit ih =>
    have hmake := map_make ih edit
    rw [intended_concat, giving]
    rcases edited_concat_cases edits edit with ⟨p', hp', hedited, -⟩ | ⟨error, herror, hedited, -⟩
    · rw [hp'] at hmake
      rw [hedited]
      cases hintend : edit.intend (intended edits) with
      | ok steps' => exact Except.ok.inj (hmake.trans (congrArg _ hintend))
      | error error => cases hmake.trans (congrArg _ hintend)
    · rw [herror] at hmake
      rw [hedited]
      cases hintend : edit.intend (intended edits) with
      | ok steps' => cases hmake.trans (congrArg _ hintend)
      | error error => exact ih

/-- **Edits keep the pipeline sound.** -/
theorem sound_edited (edits : List Edit) : (edited edits).Sound := by
  induction edits using List.reverseRecOn with
  | nil => exact FilterPipeline.Built.empty.sound
  | append_singleton edits edit ih =>
    rcases edited_concat_cases edits edit with ⟨p', hp', hedited, -⟩ | ⟨error, -, hedited, -⟩
    · exact hedited ▸ sound_make ih hp'
    · exact hedited ▸ ih

theorem givenWords_intended
    (h : ∀ step, push step ∈ edits → ∃ ws, step.data = .ofWords ws) : GivenWords (intended edits) := by
  induction edits using List.reverseRecOn with
  | nil => nofun
  | append_singleton edits edit ih =>
    have hbefore : GivenWords (intended edits) :=
      ih fun step hstep => h step (List.mem_append_left _ hstep)
    rw [intended_concat, giving]
    cases hintend : edit.intend (intended edits) with
    | ok steps' =>
      refine hbefore.intend (fun step hstep => h step ?_) hintend
      exact List.mem_append_right _ (List.mem_singleton.2 hstep.symm)
    | error error => exact hbefore

/-- **No slots are set aside before a step is put in**, and then as many as there can be steps. -/
theorem slots_edited (edits : List Edit) :
    ¬ Pushed edits ∧ (edited edits).steps = [] ∧ (edited edits).slots = 0 ∨
      Pushed edits ∧ (edited edits).slots = FilterPipeline.maxSteps := by
  induction edits using List.reverseRecOn with
  | nil =>
    refine .inl ⟨?_, rfl, rfl⟩
    rintro ⟨before, edit, hprefix, -⟩
    simp at hprefix
  | append_singleton edits edit ih =>
    have hslots : (edited edits).HasSlots := ih.imp And.right And.right
    rcases edited_concat_cases edits edit with ⟨p', hp', rfl, hpushed⟩ | ⟨error, -, hedited, hpushed⟩
    · by_cases hedit : edit.IsPush
      · refine .inr ⟨hpushed.2 (.inr hedit), ?_⟩
        exact slots_make_of_isPush hslots hedit hp'
      · obtain ⟨hsame, hnil⟩ := slots_make hedit hp'
        rw [hpushed, hsame, or_iff_left hedit]
        exact ih.imp (fun h => ⟨h.1, hnil h.2.1, h.2.2⟩) id
    · rwa [hpushed, hedited]

end Run

/-! ### Filters that tune -/

section Tuning

variable {r : FilterRegistry} {target : Target}

/-- Steps with the words that hooks gave them. -/
def retune (steps : List FilterStep) (hooks : List (Nat × List UInt32)) : List FilterStep :=
  hooks.foldl (fun steps hook => steps.modify hook.1 fun step => step.withWords hook.2) steps

/-- The hooks with their positions counted from one step earlier. -/
def later (hooks : List (Nat × List UInt32)) : List (Nat × List UInt32) :=
  hooks.map fun hook => (hook.1 + 1, hook.2)

theorem retune_later (step : FilterStep) (steps : List FilterStep) (hooks : List (Nat × List UInt32)) :
    retune (step :: steps) (later hooks) = step :: retune steps hooks := by
  induction hooks generalizing steps with
  | nil => rfl
  | cons hook hooks ih => exact ih _

theorem answered_later {step : FilterStep} {steps : List FilterStep} {hooks : List (Nat × List UInt32)}
    (h : ∀ hook ∈ hooks, Answered r target steps hook) :
    ∀ hook ∈ later hooks, Answered r target (step :: steps) hook :=
  List.forall_mem_map.2 h

theorem get?_of_find {id : FilterId} {speculative : Bool} {c : FilterClass}
    (h : r.find id speculative = .ok (some c)) : r.get? id = some c := by
  unfold FilterRegistry.find at h
  split at h
  · next hc =>
    cases h
    exact hc
  · split at h <;> cases h

/-- **What tuning leaves are the steps with words that filters answered**, even if it fails. -/
theorem exists_hooks (r : FilterRegistry) (target : Target) (steps : List FilterStep) :
    ∃ hooks, (∀ hook ∈ hooks, Answered r target steps hook) ∧
      (Gating.tuneSteps r target steps).steps = retune steps hooks := by
  induction steps with
  | nil => exact ⟨[], by simp, rfl⟩
  | cons step rest ih =>
    obtain ⟨hooks, hanswered, hrest⟩ := ih
    have hlater := retune_later step rest hooks
    rw [Gating.tuneSteps]
    split
    · exact ⟨[], by simp, rfl⟩
    · exact ⟨later hooks, answered_later hanswered, hlater ▸ congrArg _ hrest⟩
    next c hfind =>
    have hc : r.get? step.id = some c := get?_of_find hfind
    dsimp only
    cases hwords : (c.codec.setLocal step target).words with
    | none =>
      split
      · exact ⟨[], by simp, rfl⟩
      · exact ⟨later hooks, answered_later hanswered, hlater ▸ congrArg _ hrest⟩
    | some words =>
      have hown : Answered r target (step :: rest) (0, words) := ⟨step, c, rfl, hc, hwords⟩
      split
      · exact ⟨[(0, words)], by simpa using hown, rfl⟩
      · refine ⟨(0, words) :: later hooks,
          List.forall_mem_cons.2 ⟨hown, answered_later hanswered⟩, ?_⟩
        exact (congrArg _ hrest).trans (retune_later (step.withWords words) rest hooks).symm

theorem edited_tunes (edits : List Edit) (hooks : List (Nat × List UInt32)) :
    edited (edits ++ tunes hooks) =
      { edited edits with steps := retune (edited edits).steps hooks } := by
  induction hooks using List.reverseRecOn with
  | nil => simp [tunes, retune]
  | append_singleton hooks hook ih =>
    have hhooks : edits ++ tunes (hooks ++ [hook]) = edits ++ tunes hooks ++ [tune hook.1 hook.2] := by
      simp [tunes]
    have hsteps : retune (edited edits).steps (hooks ++ [hook]) =
        (retune (edited edits).steps hooks).modify hook.1 fun step => step.withWords hook.2 := by
      rw [retune, List.foldl_append]
      rfl
    rw [hhooks, edited_concat, ih, hsteps]
    rfl

end Tuning

/-! ### What a pipeline owes to its history -/

theorem toNat_le_of_isDefinition {flags : FilterFlags} (h : flags.isDefinition = true) :
    flags.bits.toNat ≤ 0x00ff := by
  have hnone : flags.bits &&& ~~~FilterFlags.definitionMask.bits = 0 := by
    simpa [FilterFlags.isDefinition] using h
  have hall : flags.bits = flags.bits &&& FilterFlags.definitionMask.bits := by
    calc flags.bits
        = flags.bits &&& (FilterFlags.definitionMask.bits ||| ~~~FilterFlags.definitionMask.bits) := by
          rw [BitVec.or_not_self, BitVec.and_allOnes]
      _ = flags.bits &&& FilterFlags.definitionMask.bits ||| 0 := by
          rw [BitVec.and_or_distrib_left, hnone]
      _ = flags.bits &&& FilterFlags.definitionMask.bits := BitVec.or_zero ..
  rw [hall, BitVec.toNat_and]
  exact Nat.and_le_right

/-- **Every history of edits makes a pipeline that represents it.** -/
theorem represents_edited (edits : List Edit) : (edited edits).Represents edits where
  steps := steps_edited edits
  words index given ws hgiven hwords := by
    refine ⟨given.step, ?_, GivenStep.words?_step hwords⟩
    rw [steps_edited, List.getElem?_map, hgiven]
    rfl
  made h := givenWords_intended h
  length_le := (sound_edited edits).length_le
  valid step hstep := FilterId.isValid_iff.1 ((sound_edited edits).valid step hstep)
  definition step hstep := toNat_le_of_isDefinition ((sound_edited edits).definition step hstep)
  slots_before hnone := by
    rcases slots_edited edits with ⟨-, -, hslots⟩ | ⟨hpushed, -⟩
    · exact hslots
    · exact absurd hpushed hnone
  slots_after hpushed := by
    rcases slots_edited edits with ⟨hnone, -⟩ | ⟨-, hslots⟩
    · exact absurd hpushed hnone
    · exact hslots
  answers edit := by
    have hmake := map_make (steps_edited edits) edit
    rw [edit.outcome_editing]
    cases hp' : edit.make (edited edits) <;> cases hintend : edit.intend (intended edits) <;>
      simp_all [Editing.settled, Except.map]
  unchanged edit error p' h := by
    rw [edit.outcome_editing] at h
    cases hp' : edit.make (edited edits) with
    | ok p'' => simp [hp', Editing.settled] at h
    | error error' =>
      rw [hp'] at h
      exact (congrArg Prod.snd h).symm
  tuned r target := by
    obtain ⟨hooks, hanswered, hsteps⟩ := exists_hooks r target (edited edits).steps
    refine ⟨hooks, hanswered, ?_⟩
    rw [edited_tunes, ← hsteps]
    rfl

/-- Two words that are kept apart from their step. -/
def FilterStep.apart : FilterStep := ⟨300, .mandatory, none, .separate [1, 2]⟩

/-- A step read from a text is pushed as it is: its words fit and are not inline, or, with a count beyond
the slots, cannot be reported. -/
theorem not_inline_pushed :
    let overfull : FilterStep := ⟨300, .mandatory, none, .inline 5 #v[1, 2, 3, 4]⟩
    (Json.parse? "\x7b\"id\":300,\"flags\":0,\"client_data\":\x7b\"Heap\":[1,2]\x7d\x7d").bind
      Json.step? = some .apart ∧
    (edited [push .apart]).steps = [.apart] ∧ FilterStep.apart.words? = some [1, 2] ∧
    FilterStep.apart.data.isInline = false ∧
    (edited [push overfull]).steps = [overfull] ∧ overfull.words? = none := by
  intro overfull
  exact ⟨by decide +kernel, by decide +kernel, rfl, rfl, by decide +kernel, rfl⟩

end FilteredChunks
