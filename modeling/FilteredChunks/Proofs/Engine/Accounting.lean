import FilteredChunks.Proofs.Engine.Turns
import FilteredChunks.Proofs.Metrics
import Mathlib.Data.Finset.Card

/-!
# What a run accounts for

The mask of a run marks what was excluded and the steps of the turns at which a codec was missing or failed,
and no others; each mark that is new is counted as a skipped step.  Besides, a run counts itself and
either the bytes in and out or its failure.  `accounted_run` is the whole account.

A source may count as it loads classes.  Its updates stand among those of the run, and are told apart from
them.
-/

namespace FilteredChunks

/-- How many positions are marked. -/
def FilterMask.count (mask : FilterMask) : Nat :=
  ((Finset.range 32).filter fun i => mask.isSet i = true).card

theorem FilterMask.count_set {mask : FilterMask} {i : Nat} (hi : i < 32)
    (hfree : mask.isSet i = false) : (mask.set i).count = mask.count + 1 := by
  have hmarks : (Finset.range 32).filter (fun j => (mask.set i).isSet j = true) =
      insert i ((Finset.range 32).filter fun j => mask.isSet j = true) := by
    ext j
    simp only [Finset.mem_filter, Finset.mem_insert, Finset.mem_range, isSet_set, Bool.or_eq_true,
      Bool.and_eq_true, decide_eq_true_eq]
    constructor
    · rintro ⟨hj, hset | ⟨-, rfl⟩⟩
      · exact .inr ⟨hj, hset⟩
      · exact .inl rfl
    · rintro (rfl | ⟨hj, hset⟩)
      · exact ⟨hi, .inr ⟨hi, rfl⟩⟩
      · exact ⟨hj, .inl hset⟩
  have hnew : i ∉ (Finset.range 32).filter fun j => mask.isSet j = true := by
    simp [hfree]
  rw [count, hmarks, Finset.card_insert_of_notMem hnew, count]

namespace Engine

open Metrics

/-! ### Names -/

/-- The name of a counter of the runs in a direction. -/
def Direction.counter : Direction → String → String
  | .write, what => "h5filter.pipeline.write" ++ what
  | .read, what => "h5filter.pipeline.read" ++ what

/-- What updates count of runs in a direction, beyond `loading`. -/
structure Counts (direction : Direction) (updates loading : List Update)
    (runs errors bytesIn bytesOut : Nat) : Prop where
  runs : counted (direction.counter ".count") updates =
    counted (direction.counter ".count") loading + runs
  errors : counted (direction.counter ".error.count") updates =
    counted (direction.counter ".error.count") loading + errors
  bytesIn : counted (direction.counter ".bytes_in") updates =
    counted (direction.counter ".bytes_in") loading + bytesIn
  bytesOut : counted (direction.counter ".bytes_out") updates =
    counted (direction.counter ".bytes_out") loading + bytesOut

theorem Direction.counter_inj (direction : Direction) {a b : String} :
    direction.counter a = direction.counter b ↔ a = b := by
  cases direction <;> exact String.append_right_inj _

theorem Direction.counter_ne_stepsSkipped (direction : Direction) {what : String}
    (h : what ∈ [".count", ".error.count", ".bytes_in", ".bytes_out"]) :
    direction.counter what ≠ stepsSkipped := by
  simp only [List.mem_cons, List.not_mem_nil, or_false] at h
  rcases h with rfl | rfl | rfl | rfl <;> cases direction <;> decide

theorem runMetrics_ok (direction : Direction) (bytesIn bytesOut : Nat) :
    runMetrics direction bytesIn bytesOut (.ok ()) =
      [.count (direction.counter ".count") 1, .sample (direction.counter ".latency_us") 0,
        .count (direction.counter ".bytes_in") bytesIn,
        .count (direction.counter ".bytes_out") bytesOut] := by
  cases direction <;> rfl

theorem runMetrics_failure (direction : Direction) (bytesIn bytesOut : Nat) (error : FilterError) :
    runMetrics direction bytesIn bytesOut (.error (.failure error)) =
      [.count (direction.counter ".count") 1, .sample (direction.counter ".latency_us") 0,
        .count (direction.counter ".error.count") 1] := by
  cases direction <;> rfl

theorem counts_runMetrics_ok (direction : Direction) (bytesIn bytesOut : Nat) :
    Counts direction (runMetrics direction bytesIn bytesOut (.ok ())) [] 1 0 bytesIn bytesOut := by
  rw [runMetrics_ok]
  constructor <;> simp [counted, Update.amount, Direction.counter_inj]

theorem counts_runMetrics_failure (direction : Direction) (bytesIn bytesOut : Nat)
    (error : FilterError) :
    Counts direction (runMetrics direction bytesIn bytesOut (.error (.failure error))) [] 1 1 0 0 := by
  rw [runMetrics_failure]
  constructor <;> simp [counted, Update.amount, Direction.counter_inj]

theorem counted_stepsSkipped_runMetrics_ok (direction : Direction) (bytesIn bytesOut : Nat) :
    counted stepsSkipped (runMetrics direction bytesIn bytesOut (.ok ())) = 0 := by
  have hne {what : String} (h : what ∈ [".count", ".error.count", ".bytes_in", ".bytes_out"]) :
      direction.counter what ≠ stepsSkipped := direction.counter_ne_stepsSkipped h
  rw [runMetrics_ok]
  simp [counted, Update.amount, hne]

/-! ### Turns -/

section Runs

variable {σ : Type} [CodecSource σ] {options : Options}

/-- What the source counts at turns. -/
def loadCounts (options : Options) (ts : List (Turn σ)) : List Update :=
  ts.flatMap fun t => t.loadCounts options

theorem Turn.Applied.not_skipped {t : Turn σ} (h : t.Applied options) : ¬ t.Skipped options := by
  obtain ⟨n, data, hreply⟩ := h
  rintro (⟨hnone, -⟩ | ⟨data', hfailed, -⟩)
  · cases hreply.symm.trans hnone
  · cases hreply.symm.trans hfailed

variable {t : Turn σ} {q : Progress σ}

theorem Turn.Went.isSet_iff (h : t.Went options q) (hlt : t.index < 32) (i : Nat) :
    q.mask.isSet i = true ↔ t.came.mask.isSet i = true ∨ t.index = i ∧ t.Skipped options := by
  rcases h.fate with ⟨happlied, hmask, -⟩ | ⟨hskipped, hmask, -⟩
  · simp [hmask, happlied.not_skipped]
  · simp [hmask, FilterMask.isSet_set, hlt, hskipped]

theorem Turn.Went.counted_of_ne (h : t.Went options q) {name : String} (hname : name ≠ stepsSkipped) :
    counted name q.metrics = counted name t.came.metrics + counted name (t.loadCounts options) := by
  rcases h.fate with ⟨-, -, hmetrics⟩ | ⟨-, -, hmetrics⟩
  · rw [hmetrics, counted_append]
  · rw [hmetrics, counted_append, counted_append, counted_count_of_ne hname.symm, Nat.add_zero]

theorem Turn.Went.counted_skipped (h : t.Went options q) (hlt : t.index < 32)
    (hfree : t.came.mask.isSet t.index = false) :
    counted stepsSkipped q.metrics + t.came.mask.count =
      counted stepsSkipped t.came.metrics + counted stepsSkipped (t.loadCounts options) +
        q.mask.count := by
  rcases h.fate with ⟨-, hmask, hmetrics⟩ | ⟨-, hmask, hmetrics⟩
  · rw [hmask, hmetrics, counted_append]
  · rw [hmask, hmetrics, counted_append, counted_append, counted_count_self,
      FilterMask.count_set hlt hfree]
    omega

namespace Takes

variable {steps : List (FilterStep × Nat)} {p : Progress σ} {ts : List (Turn σ)}
  {stage : Stage σ Unit}

/-- **The marks of a run** are those that it starts with, and the steps that it has skipped. -/
theorem marks (h : Takes options steps p ts stage) (hlt : ∀ x ∈ steps, x.2 < 32) (i : Nat) :
    stage.2.mask.isSet i = true ↔
      p.mask.isSet i = true ∨ ∃ t ∈ ts, t.index = i ∧ t.Skipped options := by
  induction h with
  | done => simp
  | masked _ _ ih => exact ih fun x hx => hlt x (List.mem_cons_of_mem _ hx)
  | @went t _ _ _ _ _ hwent _ ih =>
    have ht : t.index < 32 := hlt t.numbered List.mem_cons_self
    rw [ih fun x hx => hlt x (List.mem_cons_of_mem _ hx), hwent.isSet_iff ht, or_assoc]
    simp
  | @ended t _ _ _ _ hended =>
    have hnot : ¬ t.Skipped options := fun hskipped => hended.fatal (.inr hskipped)
    simp [hended.mask, hnot]

/-- Other counters than that of skipped steps stay as they are, but for what the source counts. -/
theorem counted_of_ne (h : Takes options steps p ts stage) {name : String}
    (hname : name ≠ stepsSkipped) :
    counted name stage.2.metrics = counted name p.metrics + counted name (loadCounts options ts) := by
  unfold loadCounts
  induction h with
  | done => rfl
  | masked _ _ ih => exact ih
  | went _ hwent _ ih =>
    rw [ih, hwent.counted_of_ne hname, List.flatMap_cons, counted_append, Nat.add_assoc]
  | ended _ hended => rw [hended.metrics, counted_append, List.flatMap_singleton]

/-- **Each step that a run has skipped is counted** as it is marked. -/
theorem counted_skipped (h : Takes options steps p ts stage) (hlt : ∀ x ∈ steps, x.2 < 32) :
    counted stepsSkipped stage.2.metrics + p.mask.count =
      counted stepsSkipped p.metrics + counted stepsSkipped (loadCounts options ts) +
        stage.2.mask.count := by
  unfold loadCounts
  induction h with
  | done => rfl
  | masked _ _ ih => exact ih fun x hx => hlt x (List.mem_cons_of_mem _ hx)
  | @went t q _ _ _ hfree hwent _ ih =>
    have hstep := hwent.counted_skipped (hlt t.numbered List.mem_cons_self) hfree
    have hrest := ih fun x hx => hlt x (List.mem_cons_of_mem _ hx)
    rw [List.flatMap_cons, counted_append]
    omega
  | ended _ hended => rw [hended.metrics, hended.mask, counted_append, List.flatMap_singleton]

end Takes

/-! ### Runs -/

variable {pipeline : FilterPipeline} {source : σ} {buffer : ChunkBuffer}

/-- The account of a run whose turns are `ts`. -/
structure Accounted (pipeline : FilterPipeline) (options : Options) (source : σ)
    (buffer : ChunkBuffer) (ts : List (Turn σ)) : Prop where
  course : IsCourse pipeline options source buffer ts
  marks : ∀ outcome, (run pipeline options source buffer).result = .ok outcome → ∀ i,
    outcome.mask.isSet i = true ↔
      options.exclude.isSet i = true ∨ ∃ t ∈ ts, t.index = i ∧ t.Skipped options
  /-- Behind the pipeline nothing is marked that was not excluded. -/
  beyond : ∀ outcome, (run pipeline options source buffer).result = .ok outcome →
    ∀ i, pipeline.length ≤ i → outcome.mask.isSet i = options.exclude.isSet i
  /-- A read without a callback applies all that it takes, or fails. -/
  strict : options.direction = .read → options.onFailure = none → ∀ outcome,
    (run pipeline options source buffer).result = .ok outcome →
      outcome.mask = options.exclude ∧ ∀ t ∈ ts, t.Applied options
  skipped : ∀ outcome, (run pipeline options source buffer).result = .ok outcome →
    counted stepsSkipped (run pipeline options source buffer).metrics + options.exclude.count =
      counted stepsSkipped (loadCounts options ts) + outcome.mask.count
  succeeded : ∀ outcome, (run pipeline options source buffer).result = .ok outcome →
    Counts options.direction (run pipeline options source buffer).metrics (loadCounts options ts)
      1 0 buffer.nbytes outcome.nbytes
  /-- A run that fails counts no bytes; one that crashes counts nothing more. -/
  failed : ∀ error, (run pipeline options source buffer).result = .error (.failure error) →
    Counts options.direction (run pipeline options source buffer).metrics (loadCounts options ts)
      1 1 0 0

theorem Turn.Goes.applied_of_read (hr : options.direction = .read) (hno : options.onFailure = none)
    (h : t.Goes options) : t.Applied options := by
  have hmust : ¬ t.MayFail options := fun hmay => by cases hr.symm.trans hmay.1
  rcases h with happlied | ⟨-, hmay⟩ | ⟨data, -, hmay | ⟨callback, -, hcallback, -⟩⟩
  · exact happlied
  · exact absurd hmay hmust
  · exact absurd hmay hmust
  · cases hno.symm.trans hcallback

/-- What the steps of a run count is what is counted at its turns; the rest it counts when it ends. -/
theorem Takes.counts {steps : List (FilterStep × Nat)} {p : Progress σ} {ts : List (Turn σ)}
    {stage : Stage σ Unit} (h : Takes options steps p ts stage) (hp : p.metrics = [])
    {last : List Update} {runs errors bytesIn bytesOut : Nat}
    (hlast : Counts options.direction last [] runs errors bytesIn bytesOut) :
    Counts options.direction (stage.2.metrics ++ last) (loadCounts options ts) runs errors bytesIn
      bytesOut := by
  have name {what : String} (hwhat : what ∈ [".count", ".error.count", ".bytes_in", ".bytes_out"]) :
      counted (options.direction.counter what) (stage.2.metrics ++ last) =
        counted (options.direction.counter what) (loadCounts options ts) +
          counted (options.direction.counter what) last := by
    rw [counted_append, h.counted_of_ne (options.direction.counter_ne_stepsSkipped hwhat), hp,
      counted_nil, Nat.zero_add]
  obtain ⟨hruns, herrors, hin, hout⟩ := hlast
  simp only [counted_nil, Nat.zero_add] at hruns herrors hin hout
  constructor
  · rw [name (by simp), hruns]
  · rw [name (by simp), herrors]
  · rw [name (by simp), hin]
  · rw [name (by simp), hout]

theorem exists_takes_of_ok (hp : pipeline.isEmpty = false) (hb : buffer.HasBytes) {outcome : Outcome}
    (h : (run pipeline options source buffer).result = .ok outcome) :
    ∃ p, Takes options (ordered options.direction pipeline.steps)
        ⟨buffer, options.exclude, source, [], []⟩ (turnsOf pipeline options source buffer) (.ok (), p) ∧
      outcome = ⟨p.buffer.nbytes, p.mask⟩ ∧ (run pipeline options source buffer).metrics =
        p.metrics ++ runMetrics options.direction buffer.nbytes p.buffer.nbytes (.ok ()) := by
  have htakes := takes_turnsOf pipeline options source buffer
  rcases hsteps : runSteps options (ordered options.direction pipeline.steps)
    ⟨buffer, options.exclude, source, [], []⟩ with ⟨fault | ⟨⟩, p⟩
  · rw [run_eq hp hb.1 hb.2 hsteps] at h
    cases h
  · rw [hsteps] at htakes
    rw [run_eq hp hb.1 hb.2 hsteps] at h ⊢
    exact ⟨p, htakes, (Except.ok.inj h).symm, rfl⟩

theorem exists_takes_of_failure (hp : pipeline.isEmpty = false) (hb : buffer.HasBytes)
    {error : FilterError}
    (h : (run pipeline options source buffer).result = .error (.failure error)) :
    ∃ p, Takes options (ordered options.direction pipeline.steps)
        ⟨buffer, options.exclude, source, [], []⟩ (turnsOf pipeline options source buffer)
        (.error (.failure error), p) ∧
      (run pipeline options source buffer).metrics = p.metrics ++
        runMetrics options.direction buffer.nbytes p.buffer.nbytes (.error (.failure error)) := by
  have htakes := takes_turnsOf pipeline options source buffer
  rcases hsteps : runSteps options (ordered options.direction pipeline.steps)
    ⟨buffer, options.exclude, source, [], []⟩ with ⟨fault | ⟨⟩, p⟩
  · rw [hsteps] at htakes
    rw [run_eq hp hb.1 hb.2 hsteps] at h ⊢
    cases h
    exact ⟨p, htakes, rfl⟩
  · rw [run_eq hp hb.1 hb.2 hsteps] at h
    cases h

theorem lt_of_mem_ordered_of_length (hlength : pipeline.length ≤ FilterPipeline.maxSteps) :
    ∀ x ∈ ordered options.direction pipeline.steps, x.2 < 32 :=
  fun _ hx => Nat.lt_of_lt_of_le (lt_of_mem_ordered hx) hlength

theorem isSet_run_iff (hp : pipeline.isEmpty = false)
    (hlength : pipeline.length ≤ FilterPipeline.maxSteps) (hb : buffer.HasBytes) {outcome : Outcome}
    (h : (run pipeline options source buffer).result = .ok outcome) (i : Nat) :
    outcome.mask.isSet i = true ↔ options.exclude.isSet i = true ∨
      ∃ t ∈ turnsOf pipeline options source buffer, t.index = i ∧ t.Skipped options := by
  obtain ⟨p, htakes, rfl, -⟩ := exists_takes_of_ok hp hb h
  exact htakes.marks (lt_of_mem_ordered_of_length hlength) i

theorem counted_skipped_run (hp : pipeline.isEmpty = false)
    (hlength : pipeline.length ≤ FilterPipeline.maxSteps) (hb : buffer.HasBytes) {outcome : Outcome}
    (h : (run pipeline options source buffer).result = .ok outcome) :
    counted stepsSkipped (run pipeline options source buffer).metrics + options.exclude.count =
      counted stepsSkipped (loadCounts options (turnsOf pipeline options source buffer)) +
        outcome.mask.count := by
  obtain ⟨p, htakes, rfl, hmetrics⟩ := exists_takes_of_ok hp hb h
  have hskipped := htakes.counted_skipped (lt_of_mem_ordered_of_length hlength)
  rw [counted_nil, Nat.zero_add] at hskipped
  rw [hmetrics, counted_append, counted_stepsSkipped_runMetrics_ok]
  exact hskipped

/-- **A run over a buffer with bytes is accounted for.** -/
theorem accounted_run (hp : pipeline.isEmpty = false)
    (hlength : pipeline.length ≤ FilterPipeline.maxSteps) (hb : buffer.HasBytes) :
    Accounted pipeline options source buffer (turnsOf pipeline options source buffer) := by
  have hcourse : IsCourse pipeline options source buffer _ := isCourse_run hb
  refine ⟨hcourse, fun _ h => isSet_run_iff hp hlength hb h, fun outcome h i hi => ?_,
    fun hr hno outcome h => ?_, fun _ h => counted_skipped_run hp hlength hb h, fun outcome h => ?_,
    fun error h => ?_⟩
  · have hnone : ¬ ∃ t ∈ turnsOf pipeline options source buffer, t.index = i ∧ t.Skipped options := by
      rintro ⟨t, ht, rfl, -⟩
      exact absurd (lt_of_mem_ordered (hcourse.mem_ordered ht)) (Nat.not_lt.2 hi)
    exact Bool.eq_iff_iff.2 ((isSet_run_iff hp hlength hb h i).trans (or_iff_left hnone))
  · have happlied (t : Turn σ) (ht : t ∈ turnsOf pipeline options source buffer) :
        t.Applied options := ((hcourse.through outcome h).2 t ht).applied_of_read hr hno
    have hnone (i : Nat) :
        ¬ ∃ t ∈ turnsOf pipeline options source buffer, t.index = i ∧ t.Skipped options := by
      rintro ⟨t, ht, -, hskipped⟩
      exact (happlied t ht).not_skipped hskipped
    exact ⟨FilterMask.ext_isSet fun i => Bool.eq_iff_iff.2
      ((isSet_run_iff hp hlength hb h i).trans (or_iff_left (hnone i))), happlied⟩
  · obtain ⟨p, htakes, rfl, hmetrics⟩ := exists_takes_of_ok hp hb h
    rw [hmetrics]
    exact htakes.counts rfl (counts_runMetrics_ok ..)
  · obtain ⟨p, htakes, hmetrics⟩ := exists_takes_of_failure hp hb h
    rw [hmetrics]
    exact htakes.counts rfl (counts_runMetrics_failure ..)

/-- Of four steps the first one applies, the second one fails and the third one has no codec, and both may;
the last one is excluded. -/
theorem accounted_run_skipping :
    let pipeline : FilterPipeline :=
      ⟨[.ofWords 300 .mandatory [], .ofWords 302 .optional [], .ofWords 999 .optional [],
        .ofWords 300 .mandatory []], 32⟩
    let options : Options := { Options.write with exclude := ⟨8⟩ }
    let buffer : ChunkBuffer := .ofBytes [1, 2]
    pipeline.isEmpty = false ∧ pipeline.length ≤ FilterPipeline.maxSteps ∧ buffer.HasBytes ∧
      (run pipeline options appendingRegistry buffer).result = .ok ⟨3, ⟨14⟩⟩ ∧
      options.exclude.count = 1 ∧ (⟨14⟩ : FilterMask).count = 3 ∧
      counted stepsSkipped (run pipeline options appendingRegistry buffer).metrics = 2 ∧
      Accounted pipeline options appendingRegistry buffer
        (turnsOf pipeline options appendingRegistry buffer) := by
  have hb : (ChunkBuffer.ofBytes [1, 2]).HasBytes := ⟨by decide, by decide⟩
  exact ⟨rfl, by decide, hb, by rfl, by decide, by decide, by decide,
    accounted_run rfl (by decide) hb⟩

end Runs

end Engine

end FilteredChunks
