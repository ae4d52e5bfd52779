import FilteredChunks.Proofs.Engine.Composition
import Mathlib.Data.List.GetD

/-!
# Excluding steps is removing them

A run leaves excluded steps alone, so it does what a run of the other steps does: it ends alike, leaves the
same buffer and the same source, and asks for the same.  Only the positions differ, under which steps
are looked up and marked; `FilterPipeline.place` tells where a step stood that is left.

There is one exception (`sameCourse_run_without_iff`).  Without any steps there is nothing to do, while a
pipeline whose steps are all excluded still wants bytes, which a buffer may not have that a run has
failed on.
-/

namespace FilteredChunks

namespace FilterPipeline

/-- The steps that a mask does not mark, with their positions. -/
def kept (p : FilterPipeline) (mask : FilterMask) : List (FilterStep × Nat) :=
  p.steps.zipIdx.filter fun x => !mask.isSet x.2

/-- The pipeline from which the marked steps were removed. -/
def without (p : FilterPipeline) (mask : FilterMask) : FilterPipeline :=
  { p with steps := (p.kept mask).map Prod.fst }

/-- Where the step stood that is at a position now.  Positions that there are no more of stand behind the
whole pipeline. -/
def place (p : FilterPipeline) (mask : FilterMask) (i : Nat) : Nat :=
  ((p.kept mask).map Prod.snd).getD i (p.length + i)

section Places

variable {p : FilterPipeline} {mask : FilterMask} {i : Nat}

theorem place_of_lt (h : i < (p.kept mask).length) : p.place mask i = ((p.kept mask)[i]).2 := by
  have h' : i < ((p.kept mask).map Prod.snd).length := by rwa [List.length_map]
  rw [place, List.getD_eq_getElem _ _ h', List.getElem_map]

theorem place_of_le (h : (p.kept mask).length ≤ i) : p.place mask i = p.length + i := by
  have h' : ((p.kept mask).map Prod.snd).length ≤ i := by rwa [List.length_map]
  rw [place, List.getD_eq_default _ _ h']

theorem place_spec (h : i < (p.kept mask).length) :
    p.place mask i < p.length ∧ mask.isSet (p.place mask i) = false := by
  rw [place_of_lt h]
  obtain ⟨hmem, hfree⟩ := List.mem_filter.1 (List.getElem_mem h)
  obtain ⟨hlt, -⟩ := List.getElem?_eq_some_iff.1 (List.mem_zipIdx_iff_getElem?.1 hmem)
  exact ⟨hlt, by simpa using hfree⟩

theorem place_injective (p : FilterPipeline) (mask : FilterMask) :
    Function.Injective (p.place mask) := by
  have hnodup : ((p.kept mask).map Prod.snd).Nodup := by
    refine List.Nodup.sublist (List.filter_sublist.map Prod.snd) ?_
    rw [List.zipIdx_map_snd]
    exact List.nodup_range'
  intro i j hij
  rcases Nat.lt_or_ge i (p.kept mask).length with hi | hi <;>
    rcases Nat.lt_or_ge j (p.kept mask).length with hj | hj
  · rw [place_of_lt hi, place_of_lt hj] at hij
    have hi' : i < ((p.kept mask).map Prod.snd).length := by rwa [List.length_map]
    have hj' : j < ((p.kept mask).map Prod.snd).length := by rwa [List.length_map]
    have hsame : ((p.kept mask).map Prod.snd)[i] = ((p.kept mask).map Prod.snd)[j] := by
      rw [List.getElem_map, List.getElem_map]
      exact hij
    exact hnodup.getElem_inj_iff.1 hsame
  · have hlt := (place_spec hi).1
    rw [place_of_le hj] at hij
    omega
  · have hlt := (place_spec hj).1
    rw [place_of_le hi] at hij
    omega
  · rw [place_of_le hi, place_of_le hj] at hij
    omega

theorem length_without (p : FilterPipeline) (mask : FilterMask) :
    (p.without mask).length = (p.kept mask).length :=
  List.length_map _

theorem length_without_le (p : FilterPipeline) (mask : FilterMask) :
    (p.without mask).length ≤ p.length := by
  rw [length_without]
  exact Nat.le_trans (List.length_filter_le ..) (Nat.le_of_eq List.length_zipIdx)

theorem isEmpty_without (h : p.isEmpty = true) : (p.without mask).isEmpty = true := by
  have hnone : p.steps = [] := List.isEmpty_iff.1 h
  rw [without, kept, hnone]
  rfl

end Places

end FilterPipeline

namespace Engine

variable {σ : Type}

/-! ### The steps that are left -/

/-- The steps that are left, each where it stood, are those that are not marked. -/
theorem map_placed_zipIdx (p : FilterPipeline) (mask : FilterMask) :
    (p.without mask).steps.zipIdx.map (placed (p.place mask)) = p.kept mask := by
  refine List.ext_getElem ?_ fun i h h' => ?_
  · rw [List.length_map, List.length_zipIdx]
    exact p.length_without mask
  · rw [List.getElem_map, List.getElem_zipIdx, placed, Nat.zero_add, FilterPipeline.place_of_lt h']
    exact Prod.ext (List.getElem_map Prod.fst) rfl

theorem map_placed_ordered (direction : Direction) (p : FilterPipeline) (mask : FilterMask) :
    (ordered direction (p.without mask).steps).map (placed (p.place mask)) =
      (ordered direction p.steps).filter fun x => !mask.isSet x.2 := by
  cases direction with
  | write => exact map_placed_zipIdx p mask
  | read =>
    dsimp only [ordered]
    rw [List.map_reverse, map_placed_zipIdx, List.filter_reverse]
    rfl

/-- **Steps that are excluded may be left out.** -/
theorem runSteps_filter [CodecSource σ] {options : Options} {exclude : FilterMask}
    {steps : List (FilterStep × Nat)} {p : Progress σ}
    (h : ∀ i, exclude.isSet i = true → p.mask.isSet i = true) :
    runSteps options steps p =
      runSteps options (steps.filter fun x => !exclude.isSet x.2) p := by
  induction steps generalizing p with
  | nil => rfl
  | cons x rest ih =>
    cases hx : exclude.isSet x.2 with
    | true =>
      rw [List.filter_cons_of_neg (by simp [hx]), runSteps, runStep_masked (h x.2 hx)]
      exact ih h
    | false =>
      rw [List.filter_cons_of_pos (by simp [hx]), runSteps, runSteps]
      split
      · next q hstep => exact ih fun i hi => (passes_of_runStep hstep).isSet (h i hi)
      · rfl

/-! ### Runs -/

/-- The run of steps that stand among excluded ones, where `place` says. -/
def Run.among (r : Run σ) (exclude : FilterMask) (place : Nat → Nat) : Run σ :=
  { r with
    result := r.result.map fun outcome : Outcome =>
      ⟨outcome.nbytes, exclude ||| outcome.mask.placed place⟩
    events := r.events.map (·.placed place) }

theorem Run.SameCourse.among {a b : Run σ} (h : a.SameCourse b) (exclude : FilterMask)
    (place : Nat → Nat) : (a.among exclude place).SameCourse (b.among exclude place) := by
  refine ⟨?_, h.buffer, h.source, ?_⟩
  · dsimp only [Run.among]
    rw [h.result]
  · dsimp only [Run.among]
    rw [h.events]

/-- What is left of steps in another run is what is left of them, told as in that run. -/
theorem ofStage_placedStage (stage : Stage σ Unit) (buffer : ChunkBuffer) (exclude : FilterMask)
    (source : σ) (place : Nat → Nat) :
    Run.ofStage (placedStage stage ⟨buffer, exclude, source, [], []⟩ place) =
      (Run.ofStage stage).among exclude place := by
  rcases stage with ⟨fault | ⟨⟩, p⟩ <;> rfl

section Runs

variable {pipeline : FilterPipeline} {options : Options} {source : FilterRegistry}
  {buffer : ChunkBuffer}

theorem run_of_isEmpty (h : pipeline.isEmpty = true) :
    run pipeline options source buffer =
      ⟨.ok ⟨buffer.nbytes, options.exclude⟩, buffer, source, [], []⟩ := by
  rw [run, if_pos h]

theorem run_of_not_hasBytes (h : pipeline.isEmpty = false) (hb : ¬ buffer.HasBytes) :
    run pipeline options source buffer =
      ⟨.error (.failure (.invalidArgument .emptyBuffer)), buffer, source, [], []⟩ := by
  have hnone : buffer.nbytes = 0 ∨ buffer.data = [] := by
    by_contra hsome
    exact hb (not_or.1 hsome)
  rw [run, if_neg (by simp [h]), if_pos hnone]

theorem sameCourse_run_without (hlength : pipeline.length ≤ FilterPipeline.maxSteps)
    (hb : buffer.HasBytes) :
    (run pipeline options source buffer).SameCourse
      ((run (pipeline.without options.exclude) { options with exclude := .empty } source
        buffer).among options.exclude (pipeline.place options.exclude)) := by
  have hfits : ∀ x ∈ ordered options.direction (pipeline.without options.exclude).steps,
      Fits options.exclude (pipeline.place options.exclude) x.2 := by
    intro x hx
    have hlt : x.2 < (pipeline.kept options.exclude).length := by
      rw [← FilterPipeline.length_without]
      exact lt_of_mem_ordered hx
    have hle := pipeline.length_without_le options.exclude
    obtain ⟨hplace, hfree⟩ := FilterPipeline.place_spec hlt
    rw [← FilterPipeline.length_without] at hlt
    exact ⟨Nat.lt_of_lt_of_le hlt (Nat.le_trans hle hlength), Nat.lt_of_lt_of_le hplace hlength, hfree,
      fun j hj => pipeline.place_injective options.exclude hj⟩
  -- the whole run starts where the run of the steps that are left does, among the excluded ones
  have hstart : (⟨buffer, options.exclude, source, [], []⟩ : Progress FilterRegistry) =
      Progress.placed ⟨buffer, .empty, source, [], []⟩ ⟨buffer, options.exclude, source, [], []⟩
        (pipeline.place options.exclude) := by
    dsimp only [Progress.placed]
    rw [FilterMask.placed_empty, FilterMask.or_empty]
    rfl
  have hsteps : runSteps options (ordered options.direction pipeline.steps)
      ⟨buffer, options.exclude, source, [], []⟩ =
        placedStage (runSteps options
          (ordered options.direction (pipeline.without options.exclude).steps)
          ⟨buffer, .empty, source, [], []⟩) ⟨buffer, options.exclude, source, [], []⟩
          (pipeline.place options.exclude) := by
    rw [runSteps_filter (p := ⟨buffer, options.exclude, source, [], []⟩) fun _ hi => hi,
      ← map_placed_ordered]
    exact (congrArg (runSteps options _) hstart).trans (runSteps_placed _ _ hfits)
  have hwhole : (run pipeline options source buffer).SameCourse _ :=
    sameCourse_run hb pipeline options.exclude
  rw [hsteps, ofStage_placedStage] at hwhole
  exact hwhole.trans ((sameCourse_run hb (pipeline.without options.exclude) .empty).symm.among _ _)

/-- **Excluding steps is removing them**, unless the buffer has no bytes and there are steps, all of which
are excluded. -/
theorem sameCourse_run_without_iff (hlength : pipeline.length ≤ FilterPipeline.maxSteps) :
    (run pipeline options source buffer).SameCourse
        ((run (pipeline.without options.exclude) { options with exclude := .empty } source
          buffer).among options.exclude (pipeline.place options.exclude)) ↔
      buffer.HasBytes ∨ (pipeline.without options.exclude).isEmpty = pipeline.isEmpty := by
  by_cases hb : buffer.HasBytes
  · exact iff_of_true (sameCourse_run_without hlength hb) (.inl hb)
  cases hempty : pipeline.isEmpty with
  | true =>
    have hleft : (pipeline.without options.exclude).isEmpty = true :=
      FilterPipeline.isEmpty_without hempty
    refine iff_of_true ?_ (.inr hleft)
    rw [run_of_isEmpty hempty, run_of_isEmpty hleft]
    refine ⟨?_, rfl, rfl, rfl⟩
    dsimp only [Run.among, Except.map]
    rw [FilterMask.placed_empty, FilterMask.or_empty]
  | false =>
    rw [run_of_not_hasBytes hempty hb]
    cases hleft : (pipeline.without options.exclude).isEmpty with
    | true =>
      rw [run_of_isEmpty hleft]
      refine iff_of_false (fun h => ?_) (by simp [hb])
      cases h.result
    | false =>
      rw [run_of_not_hasBytes hleft hb]
      exact iff_of_true ⟨rfl, rfl, rfl, rfl⟩ (.inr rfl)

/-- Of four steps the second one is excluded, and the third one fails and may. -/
theorem sameCourse_run_without_iff_second :
    let step : FilterStep := .ofWords 300 .mandatory []
    let pipeline : FilterPipeline :=
      ⟨[step, .ofWords 302 .mandatory [], .ofWords 302 .optional [], step], 32⟩
    let options : Options := { Options.write with exclude := ⟨2⟩ }
    let buffer : ChunkBuffer := .ofBytes [1, 2]
    pipeline.length ≤ FilterPipeline.maxSteps ∧
      (run pipeline options appendingRegistry buffer).stored = .ok ([1, 2, 7, 7], ⟨6⟩) ∧
      (run (pipeline.without ⟨2⟩) .write appendingRegistry buffer).stored =
        .ok ([1, 2, 7, 7], ⟨2⟩) ∧
      (run pipeline options appendingRegistry buffer).SameCourse
        ((run (pipeline.without ⟨2⟩) .write appendingRegistry buffer).among ⟨2⟩
          (pipeline.place ⟨2⟩)) := by
  have hb : (ChunkBuffer.ofBytes [1, 2]).HasBytes := ⟨by decide, by decide⟩
  exact ⟨by decide, by rfl, by rfl, (sameCourse_run_without_iff (by decide)).2 (.inl hb)⟩

/-- A registry with a codec that fails and throws the buffer away. -/
def clearingRegistry : FilterRegistry where
  classes := [.ofCodec 300 "clear" (.ofSample .clearing .always .keep) (.application 0)]
  slots := 32
  loader := none
  collectiveCheck := false

/-- A run has failed and left a buffer that has no bytes, though two of them count.  Over this buffer a run
without its only step fails, and a run of no steps succeeds. -/
theorem not_sameCourse_run_without_cleared :
    let pipeline : FilterPipeline := ⟨[.ofWords 300 .mandatory []], 32⟩
    let buffer := (run pipeline .write clearingRegistry (.ofBytes [1, 2])).buffer
    let options : Options := { Options.write with exclude := ⟨1⟩ }
    0 < buffer.nbytes ∧ pipeline.length ≤ FilterPipeline.maxSteps ∧
      ¬ (run pipeline options clearingRegistry buffer).SameCourse
        ((run (pipeline.without ⟨1⟩) .write clearingRegistry buffer).among ⟨1⟩
          (pipeline.place ⟨1⟩)) := by
  refine ⟨by decide, by decide, fun h => ?_⟩
  cases h.result

end Runs

end Engine

end FilteredChunks
