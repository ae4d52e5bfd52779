import FilteredChunks.Proofs.Engine.Positions
import FilteredChunks.Proofs.Engine.RoundTrip

/-!
# Pipelines put together

Running the steps of two pipelines as one is running one pipeline on what the other left
(`composes_run`): on write the first and then the second, on read the other way round.  What either did
not apply is marked, the second pipeline's steps behind those of the first.  A run that fails has gone
through the steps before the one that it fails at, and asks for nothing on behalf of the later ones
(`failsAtAStep`).
-/

namespace FilteredChunks

/-- A buffer with bytes, as a run needs one to start. -/
def ChunkBuffer.HasBytes (b : ChunkBuffer) : Prop := b.nbytes ≠ 0 ∧ b.data ≠ []

namespace Engine

variable {σ : Type}

/-! ### Runs one after the other -/

/-- The run of the same steps numbered from `k` on. -/
def Run.numberedFrom (r : Run σ) (k : Nat) : Run σ :=
  { r with
    result := r.result.map fun outcome : Outcome => ⟨outcome.nbytes, outcome.mask <<< k⟩
    events := r.events.map (·.numberedFrom k) }

/-- A run and, if it succeeds, another one on what it left; what either did not apply is marked. -/
def Run.andThen (first : Run σ) (second : σ → ChunkBuffer → Run σ) : Run σ :=
  match first.result with
  | .error _ => first
  | .ok outcome =>
    let last := second first.source first.buffer
    { result := last.result.map fun o : Outcome => ⟨o.nbytes, outcome.mask ||| o.mask⟩
      buffer := last.buffer
      source := last.source
      events := first.events ++ last.events
      metrics := first.metrics ++ last.metrics }

/-- Two runs that end alike and ask for the same; they may count differently. -/
structure Run.SameCourse (a b : Run σ) : Prop where
  result : a.result = b.result
  buffer : a.buffer = b.buffer
  source : a.source = b.source
  events : a.events = b.events

theorem Run.exists_of_numberedFrom {r : Run σ} {k : Nat} {outcome : Outcome}
    (h : (r.numberedFrom k).result = .ok outcome) : ∃ o, r.result = .ok o := by
  unfold Run.numberedFrom at h
  cases hresult : r.result with
  | error fault =>
    rw [hresult] at h
    cases h
  | ok o => exact ⟨o, rfl⟩

theorem Run.numberedFrom_zero (r : Run σ) : r.numberedFrom 0 = r := by
  obtain ⟨result, buffer, source, events, metrics⟩ := r
  have hevents : events.map (·.numberedFrom 0) = events :=
    List.map_id'' Event.numberedFrom_zero events
  cases result with
  | error fault =>
    rw [Run.numberedFrom, hevents]
    rfl
  | ok outcome =>
    rw [Run.numberedFrom, hevents]
    dsimp only [Except.map]
    rw [FilterMask.shiftLeft_zero]

namespace Run.SameCourse

variable {a b c : Run σ}

theorem symm (h : a.SameCourse b) : b.SameCourse a :=
  ⟨h.result.symm, h.buffer.symm, h.source.symm, h.events.symm⟩

theorem trans (h : a.SameCourse b) (h' : b.SameCourse c) : a.SameCourse c :=
  ⟨h.result.trans h'.result, h.buffer.trans h'.buffer, h.source.trans h'.source,
    h.events.trans h'.events⟩

theorem numberedFrom (h : a.SameCourse b) (k : Nat) :
    (a.numberedFrom k).SameCourse (b.numberedFrom k) := by
  refine ⟨?_, h.buffer, h.source, ?_⟩
  · dsimp only [Run.numberedFrom]
    rw [h.result]
  · dsimp only [Run.numberedFrom]
    rw [h.events]

/-- Runs that are alike go on alike, if what follows is alike on what they left. -/
theorem andThen (h : a.SameCourse b) {second second' : σ → ChunkBuffer → Run σ}
    (h' : ∀ outcome, a.result = .ok outcome →
      (second a.source a.buffer).SameCourse (second' a.source a.buffer)) :
    (a.andThen second).SameCourse (b.andThen second') := by
  unfold Run.andThen
  rw [← h.result, ← h.source, ← h.buffer]
  cases hresult : a.result with
  | error fault => exact h
  | ok outcome =>
    obtain ⟨hr, hbuffer, hsource, hevents⟩ := h' outcome hresult
    refine ⟨?_, hbuffer, hsource, ?_⟩
    · dsimp only
      rw [hr]
    · dsimp only
      rw [h.events, hevents]

end Run.SameCourse

/-- What is left of the steps of a run. -/
def Run.ofStage (stage : Stage σ Unit) : Run σ where
  result := stage.1.map fun () => ⟨stage.2.buffer.nbytes, stage.2.mask⟩
  buffer := stage.2.buffer
  source := stage.2.source
  events := stage.2.events
  metrics := stage.2.metrics

/-! ### Runs -/

section Starts

variable [CodecSource σ] {options : Options} {source : σ} {buffer : ChunkBuffer}

/-- Which steps a run was to exclude matters only at its start. -/
theorem runSteps_exclude (exclude : FilterMask) (steps : List (FilterStep × Nat)) (p : Progress σ) :
    runSteps { options with exclude := exclude } steps p = runSteps options steps p := by
  induction steps generalizing p with
  | nil => rfl
  | cons x rest ih =>
    have hstep : runStep { options with exclude := exclude } x.2 x.1 p =
      runStep options x.2 x.1 p := rfl
    rw [runSteps, runSteps, hstep]
    split
    · exact ih _
    · rfl

theorem sameCourse_run (hb : buffer.HasBytes) (pipeline : FilterPipeline) (exclude : FilterMask) :
    (run pipeline { options with exclude := exclude } source buffer).SameCourse
      (.ofStage (runSteps options (ordered options.direction pipeline.steps)
        ⟨buffer, exclude, source, [], []⟩)) := by
  rw [← runSteps_exclude exclude]
  cases hempty : pipeline.isEmpty with
  | true =>
    have hnone : ordered options.direction pipeline.steps = [] := by
      rw [List.isEmpty_iff.1 hempty]
      cases options.direction <;> rfl
    rw [run, if_pos hempty, hnone]
    exact ⟨rfl, rfl, rfl, rfl⟩
  | false =>
    rw [run_eq hempty hb.1 hb.2 rfl]
    exact ⟨rfl, rfl, rfl, rfl⟩

end Starts

section Runs

variable {options : Options} {source : FilterRegistry} {buffer : ChunkBuffer}

theorem lt_of_mem_ordered {direction : Direction} {pipeline : FilterPipeline}
    {x : FilterStep × Nat} (h : x ∈ ordered direction pipeline.steps) : x.2 < pipeline.length :=
  (List.getElem?_eq_some_iff.1 (mem_ordered_iff.1 h)).1

/-- **Steps after other steps**, both at their positions in a longer run: no step is marked by what
the other ones exclude or have left out. -/
theorem sameCourse_ofStage_append {xs ys : List (FilterStep × Nat)} {k l : Nat} {a b : FilterMask}
    (hxs : ∀ x ∈ xs, k + x.2 < 32 ∧ (b <<< l).isSet (k + x.2) = false)
    (hys : ∀ p, runSteps options xs ⟨buffer, a, source, [], []⟩ = (.ok (), p) →
      ∀ y ∈ ys, l + y.2 < 32 ∧ (p.mask <<< k).isSet (l + y.2) = false) :
    (Run.ofStage (runSteps options (xs.map (numberedFrom k) ++ ys.map (numberedFrom l))
        ⟨buffer, a <<< k ||| b <<< l, source, [], []⟩)).SameCourse
      (((Run.ofStage (runSteps options xs ⟨buffer, a, source, [], []⟩)).numberedFrom k).andThen
        fun s c => (Run.ofStage (runSteps options ys ⟨c, b, s, [], []⟩)).numberedFrom l) := by
  -- each part starts behind what the other excludes or has left
  have hstart : (⟨buffer, a <<< k ||| b <<< l, source, [], []⟩ : Progress FilterRegistry) =
      Progress.behind ⟨buffer, a, source, [], []⟩ ⟨buffer, b <<< l, source, [], []⟩ k :=
    congrArg (Progress.mk buffer · source [] []) (FilterMask.or_comm ..)
  have hmiddle (p : Progress FilterRegistry) : p.behind ⟨buffer, b <<< l, source, [], []⟩ k =
      Progress.behind ⟨p.buffer, b, p.source, [], []⟩
        ⟨buffer, p.mask <<< k, source, p.events.map (·.numberedFrom k), p.metrics⟩ l := by
    dsimp only [Progress.behind]
    rw [List.nil_append, List.nil_append, List.map_nil, List.append_nil, List.append_nil]
    exact congrArg (Progress.mk p.buffer · p.source _ _) (FilterMask.or_comm ..)
  have hparts := (congrArg (runSteps options (xs.map (numberedFrom k))) hstart).trans
    (runSteps_behind _ _ hxs)
  rw [runSteps_append, hparts]
  rcases hfirst : runSteps options xs ⟨buffer, a, source, [], []⟩ with ⟨fault | ⟨⟩, p⟩
  · exact ⟨rfl, rfl, rfl, rfl⟩
  have hrest := (congrArg (runSteps options (ys.map (numberedFrom l))) (hmiddle p)).trans
    (runSteps_behind _ _ (hys p hfirst))
  dsimp only [behind]
  rw [hrest]
  dsimp only [Run.ofStage, Run.numberedFrom, Run.andThen, Except.map]
  rcases runSteps options ys ⟨p.buffer, b, p.source, [], []⟩ with ⟨fault | ⟨⟩, q⟩
  · exact ⟨rfl, rfl, rfl, rfl⟩
  · exact ⟨rfl, rfl, rfl, rfl⟩

/-- **Two pipelines run as one**, given where the steps of each come in the whole and that neither's
exclusions are among the other's steps. -/
theorem sameCourse_run_append {whole first second : FilterPipeline} {k l : Nat} {a b : FilterMask}
    (hexclude : options.exclude = a <<< k ||| b <<< l)
    (hordered : ordered options.direction whole.steps =
      (ordered options.direction first.steps).map (numberedFrom k) ++
        (ordered options.direction second.steps).map (numberedFrom l))
    (hfirst : ∀ i < first.length, k + i < 32 ∧ (b <<< l).isSet (k + i) = false)
    (hsecond : ∀ i < second.length, l + i < 32 ∧ ∀ mask : FilterMask,
      (∀ j, first.length ≤ j → mask.isSet j = a.isSet j) → (mask <<< k).isSet (l + i) = false)
    (hb : buffer.HasBytes)
    (hleft : ∀ outcome, (run first { options with exclude := a } source buffer).result = .ok outcome →
      (run first { options with exclude := a } source buffer).buffer.HasBytes) :
    (run whole options source buffer).SameCourse
      (((run first { options with exclude := a } source buffer).numberedFrom k).andThen fun s c =>
        (run second { options with exclude := b } s c).numberedFrom l) := by
  have hrun : (run first { options with exclude := a } source buffer).SameCourse
      (.ofStage (runSteps options (ordered options.direction first.steps)
        ⟨buffer, a, source, [], []⟩)) := sameCourse_run hb first a
  have hwhole : (run whole options source buffer).SameCourse
      (.ofStage (runSteps options ((ordered options.direction first.steps).map (numberedFrom k) ++
          (ordered options.direction second.steps).map (numberedFrom l))
        ⟨buffer, a <<< k ||| b <<< l, source, [], []⟩)) := by
    rw [← hexclude, ← hordered]
    exact sameCourse_run hb whole options.exclude
  refine hwhole.trans (.trans (sameCourse_ofStage_append ?_ ?_) (.andThen (hrun.symm.numberedFrom k) ?_))
  · intro x hx
    exact hfirst x.2 (lt_of_mem_ordered hx)
  · intro p hp y hy
    obtain ⟨hlt, hfree⟩ := hsecond y.2 (lt_of_mem_ordered hy)
    refine ⟨hlt, hfree p.mask fun j hj => ?_⟩
    -- the first steps mark none but themselves
    refine isSet_of_runSteps hp fun hmem => ?_
    obtain ⟨x, hx, rfl⟩ := List.mem_map.1 hmem
    exact absurd (lt_of_mem_ordered hx) (Nat.not_lt.2 hj)
  · intro outcome houtcome
    obtain ⟨o, ho⟩ := Run.exists_of_numberedFrom houtcome
    have hbytes := hleft o (hrun.result.trans ho)
    rw [hrun.buffer] at hbytes
    exact ((sameCourse_run hbytes second b).symm).numberedFrom l

/-! ### Where a run fails -/

theorem Stops.nbytes_eq {index : Nat} {step : FilterStep} {p p' : Progress FilterRegistry}
    {fault : Fault} (h : Stops options index step p fault p') : p'.buffer.nbytes = p.buffer.nbytes := by
  cases h with
  | unregistered => rfl
  | unloaded => rfl
  | unreadable _ c q hc => exact congrArg ChunkBuffer.nbytes hc.buffer_eq
  | crashed _ c q hc => exact congrArg ChunkBuffer.nbytes hc.buffer_eq
  | condemned _ c q p' hc data ht fault hf => cases hf <;> rfl

/-- A run has failed at one of its steps: the steps before it went through, what they counted still
counts, and since then only that step has asked for anything. -/
def FailsAtAStep (pipeline : FilterPipeline) (options : Options) (source : FilterRegistry)
    (buffer : ChunkBuffer) : Prop :=
  ∃ before x after, ∃ q : Progress FilterRegistry,
    ordered options.direction pipeline.steps = before ++ x :: after ∧
    runSteps options before ⟨buffer, options.exclude, source, [], []⟩ = (.ok (), q) ∧
    (run pipeline options source buffer).buffer.nbytes = q.buffer.nbytes ∧
    ∃ asked, (run pipeline options source buffer).events = q.events ++ asked ∧
      Asked options x.2 x.1 asked

theorem failsAtAStep {pipeline : FilterPipeline} {fault : Fault} (hb : buffer.HasBytes)
    (h : (run pipeline options source buffer).result = .error fault) :
    FailsAtAStep pipeline options source buffer := by
  have hrun : (run pipeline options source buffer).SameCourse _ :=
    sameCourse_run hb pipeline options.exclude
  rcases hsteps : runSteps options (ordered options.direction pipeline.steps)
    ⟨buffer, options.exclude, source, [], []⟩ with ⟨result, p⟩
  rw [hsteps] at hrun
  rw [hrun.result] at h
  cases result with
  | ok => cases h
  | error fault =>
    obtain ⟨before, x, after, q, hordered, hbefore, hstops⟩ := exists_stops hsteps
    obtain ⟨asked, hevents, hasked⟩ := hstops.asksFor
    exact ⟨before, x, after, q, hordered, hbefore,
      (congrArg ChunkBuffer.nbytes hrun.buffer).trans hstops.nbytes_eq, asked,
      hrun.events.trans hevents, hasked⟩

/-! ### Two pipelines -/

/-- A whole run is a run followed by another, provided that the first leaves bytes if it succeeds. -/
def IsThen (whole first : Run FilterRegistry)
    (second : FilterRegistry → ChunkBuffer → Run FilterRegistry) : Prop :=
  (∀ outcome, first.result = .ok outcome → first.buffer.HasBytes) →
    whole.SameCourse (first.andThen second)

/-- Running `whole` comes apart into running `p` without the steps in `low` and `q`, whose steps are
numbered after those of `p`, without the steps in `high`. -/
structure Composes (options : Options) (source : FilterRegistry) (buffer : ChunkBuffer)
    (whole p q : FilterPipeline) (low high : FilterMask) : Prop where
  write : options.direction = .write →
    IsThen (run whole options source buffer)
      (run p { options with exclude := low } source buffer)
      fun s c => (run q { options with exclude := high } s c).numberedFrom p.length
  read : options.direction = .read →
    IsThen (run whole options source buffer)
      ((run q { options with exclude := high } source buffer).numberedFrom p.length)
      fun s c => run p { options with exclude := low } s c
  fails : ∀ fault, (run whole options source buffer).result = .error fault →
    FailsAtAStep whole options source buffer

section Halves

variable {p q whole : FilterPipeline} {low high : FilterMask}

theorem isThen_write (hw : options.direction = .write) (hsteps : whole.steps = p.steps ++ q.steps)
    (hlength : p.length + q.length ≤ 32) (hlow : low.Within p.length)
    (hexclude : options.exclude = low ||| high <<< p.length) (hb : buffer.HasBytes) :
    IsThen (run whole options source buffer) (run p { options with exclude := low } source buffer)
      fun s c => (run q { options with exclude := high } s c).numberedFrom p.length := by
  intro hleft
  rw [← Run.numberedFrom_zero (run p _ source buffer)]
  refine sameCourse_run_append ?_ ?_ ?_ ?_ hb hleft
  · rw [FilterMask.shiftLeft_zero]
    exact hexclude
  · rw [hw, hsteps, map_numberedFrom_zero]
    exact ordered_write_append ..
  · intro i hi
    rw [Nat.zero_add]
    exact ⟨by omega, FilterMask.isSet_shiftLeft_of_lt high hi⟩
  · intro i hi
    refine ⟨by omega, fun mask hmask => ?_⟩
    rw [FilterMask.shiftLeft_zero, hmask _ (Nat.le_add_right ..)]
    exact hlow _ (Nat.le_add_right ..)

theorem isThen_read (hr : options.direction = .read) (hsteps : whole.steps = p.steps ++ q.steps)
    (hlength : p.length + q.length ≤ 32) (hlow : low.Within p.length)
    (hexclude : options.exclude = low ||| high <<< p.length) (hb : buffer.HasBytes) :
    IsThen (run whole options source buffer)
      ((run q { options with exclude := high } source buffer).numberedFrom p.length)
      fun s c => run p { options with exclude := low } s c := by
  intro hleft
  have hlast : (fun (s : FilterRegistry) c => run p { options with exclude := low } s c) =
      fun s c => (run p { options with exclude := low } s c).numberedFrom 0 :=
    funext fun s => funext fun c => (Run.numberedFrom_zero _).symm
  rw [hlast]
  refine sameCourse_run_append ?_ ?_ ?_ ?_ hb fun outcome houtcome => ?_
  · rw [FilterMask.shiftLeft_zero, FilterMask.or_comm]
    exact hexclude
  · rw [hr, hsteps, map_numberedFrom_zero]
    exact ordered_read_append ..
  · intro i hi
    rw [FilterMask.shiftLeft_zero]
    exact ⟨by omega, hlow _ (Nat.le_add_right ..)⟩
  · intro i hi
    rw [Nat.zero_add]
    exact ⟨by omega, fun mask _ => FilterMask.isSet_shiftLeft_of_lt mask hi⟩
  · exact hleft _ (congrArg (Except.map _) houtcome)

/-- **Running a pipeline is compositional.** -/
theorem composes_run (hsteps : whole.steps = p.steps ++ q.steps)
    (hlength : p.length + q.length ≤ FilterPipeline.maxSteps) (hlow : low.Within p.length)
    (hexclude : options.exclude = low ||| high <<< p.length) (hb : buffer.HasBytes) :
    Composes options source buffer whole p q low high where
  write hw := isThen_write hw hsteps hlength hlow hexclude hb
  read hr := isThen_read hr hsteps hlength hlow hexclude hb
  fails _ h := failsAtAStep hb h

end Halves

/-- A registry with a codec that appends a byte and one that fails. -/
def appendingRegistry : FilterRegistry where
  classes :=
    [.ofCodec 300 "append" (.ofSample (.appending 7) .always .keep) (.application 0),
      .ofCodec 302 "fail" (.ofSample .failing .always .keep) (.application 1)]
  slots := 32
  loader := none
  collectiveCheck := false

/-- A step that applies, and behind it one whose codec fails and one that is excluded. -/
theorem composes_run_skipping :
    let step : FilterStep := .ofWords 300 .mandatory []
    let p : FilterPipeline := ⟨[step], 32⟩
    let q : FilterPipeline := ⟨[.ofWords 302 .optional [], step], 32⟩
    let whole : FilterPipeline := ⟨p.steps ++ q.steps, 32⟩
    let options : Options := { Options.write with exclude := ⟨4⟩ }
    let buffer : ChunkBuffer := .ofBytes [1, 2]
    whole.steps = p.steps ++ q.steps ∧ p.length + q.length ≤ FilterPipeline.maxSteps ∧
      FilterMask.empty.Within p.length ∧
      options.exclude = FilterMask.empty ||| (⟨2⟩ : FilterMask) <<< p.length ∧ buffer.HasBytes ∧
      (run whole options appendingRegistry buffer).stored = .ok ([1, 2, 7], ⟨6⟩) ∧
      Composes options appendingRegistry buffer whole p q .empty ⟨2⟩ := by
  have hlow : FilterMask.empty.Within 1 := fun i _ => FilterMask.isSet_empty i
  have hb : (ChunkBuffer.ofBytes [1, 2]).HasBytes := ⟨by decide, by decide⟩
  exact ⟨rfl, by decide, hlow, by decide, hb, by rfl,
    composes_run rfl (by decide) hlow (by decide) hb⟩

end Runs

end Engine

end FilteredChunks
