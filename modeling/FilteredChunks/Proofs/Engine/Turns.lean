import FilteredChunks.Proofs.Engine.Composition
import Mathlib.Data.List.Chain

/-!
# The turns of a run

A run takes a turn for every step that it comes to and does not leave out.  What happens at a turn is
settled by the progress that the run comes with: which class the step gets, what its codec replies, what is
asked for (`Turn.log`), and whether the step is applied, skipped, or ends the run.

`went_of_passes` and `ended_of_stops` say so of one turn.  A run of steps is its turns one after the other
(`Takes`), from which follow the order in which steps are taken, what is asked for, the marks and what is
counted, each by induction on the turns.  `isCourse_run` says it of a run of a pipeline.
-/

namespace FilteredChunks.Engine

variable {σ : Type}

/-- The turn of a step in a run that comes to it with some progress. -/
structure Turn (σ : Type) where
  step : FilterStep
  index : Nat
  came : Progress σ

namespace Turn

variable (options : Options) (t : Turn σ)

/-- On write an optional step may fail. -/
def MayFail : Prop := options.direction = .write ∧ t.step.isOptional = true

instance : Decidable (t.MayFail options) := inferInstanceAs (Decidable (_ ∧ _))

/-- The flags for the codec: on write those of the step; on read it is also told to go back, and to do so
without checks where these are off. -/
def flags : FilterFlags :=
  match options.direction, options.checks with
  | .write, _ => t.step.flags
  | .read, true => t.step.flags ||| .reverse
  | .read, false => t.step.flags ||| .reverse ||| .skipChecks

/-- What the callback is shown if the codec has failed and left `data`.  Without a callback nobody is
asked, and nobody is where the step may fail. -/
def shown? (data : Bytes) : Option Bytes :=
  if options.onFailure.isSome ∧ ¬ t.MayFail options then
    options.seen? ⟨data, t.came.buffer.nbytes⟩
  else none

/-- The callback lets the run go on after the codec has failed and left `data`. -/
def Rescued (data : Bytes) : Prop :=
  ∃ callback seen, options.onFailure = some callback ∧
    options.seen? ⟨data, t.came.buffer.nbytes⟩ = some seen ∧ callback t.step.id seen = .continue

variable [CodecSource σ]

/-- The class that the look-up gives. -/
def found : Option FilterClass := CodecSource.codec t.came.source t.index t.step

/-- The class that the step gets, looked up or, on read, loaded. -/
def class? : Option FilterClass := classFor options.direction t.came.source t.index t.step

/-- The reply of the codec, if the step gets one.  Client words that cannot be read are a crash. -/
def reply? : Option Reply :=
  (t.class? options).map fun c =>
    match t.step.words? with
    | some words =>
      c.codec.transform (t.flags options) words t.came.buffer.nbytes t.came.buffer.data
    | none => .crashed

/-- What is asked of the source after the look-up: on read, to load a class that it does not have. -/
def loads : List Event :=
  if options.direction = .read ∧ t.found = none then [.load t.step.id] else []

/-- The call of the codec, which gets the client words of the step. -/
def calls : List Event :=
  match t.class? options, t.step.words? with
  | some c, some words =>
    [.call c.origin c.id (t.flags options) words t.came.buffer.nbytes t.came.buffer.size]
  | _, _ => []

/-- What is asked of the callback. -/
def asks : List Event :=
  match t.reply? options with
  | some (.produced 0 data) => (t.shown? options data).toList.map (.callback t.step.id)
  | _ => []

/-- **Everything that is asked for at a turn.** -/
def log : List Event :=
  .lookup t.index t.step.id :: (t.loads options ++ t.calls options ++ t.asks options)

/-- The buffer after a turn after which the run goes on.  Where the callback has put up with a failure,
every byte counts. -/
def leaves : ChunkBuffer :=
  match t.reply? options with
  | some (.produced (n + 1) data) => ⟨data, n + 1⟩
  | some (.produced 0 data) =>
    ⟨data, if t.MayFail options then t.came.buffer.nbytes else data.length⟩
  | _ => t.came.buffer

/-- The codec applied. -/
def Applied : Prop := ∃ n data, t.reply? options = some (.produced (n + 1) data)

/-- The step did not apply, and the run goes on: it has no codec or its codec failed, and may, or the
callback has put up with the failure. -/
inductive Skipped : Prop
  | absent (hreply : t.reply? options = none) (hmay : t.MayFail options)
  | inVain (data : Bytes) (hreply : t.reply? options = some (.produced 0 data))
      (hgo : t.MayFail options ∨ t.Rescued options data)

/-- The run goes on after the turn. -/
def Goes : Prop := t.Applied options ∨ t.Skipped options

/-! ### What a turn asks for -/

variable {options t}

omit [CodecSource σ] in
theorem flags_eq : t.flags options = t.step.flags ||| options.callFlags := by
  cases hdirection : options.direction with
  | write =>
    rw [Options.callFlags_write hdirection, flags, hdirection]
  | read =>
    cases hchecks : options.checks with
    | true => rw [flags, Options.callFlags, hdirection, hchecks, if_pos rfl]
    | false =>
      rw [flags, Options.callFlags, hdirection, hchecks]
      exact congrArg FilterFlags.mk (BitVec.or_assoc ..)

omit [CodecSource σ] in
theorem shown?_of_mayFail (h : t.MayFail options) (data : Bytes) : t.shown? options data = none :=
  if_neg fun hasked => hasked.2 h

omit [CodecSource σ] in
theorem shown?_of_mustNot (h : options.direction = .write → t.step.isOptional = false)
    {callback : FilterId → Bytes → Verdict} (hcallback : options.onFailure = some callback)
    (data : Bytes) : t.shown? options data = options.seen? ⟨data, t.came.buffer.nbytes⟩ := by
  refine if_pos ⟨by rw [hcallback]; rfl, fun hmay => ?_⟩
  cases (h hmay.1).symm.trans hmay.2

theorem log_of_class?_eq_none (h : t.class? options = none) :
    t.log options = .lookup t.index t.step.id :: t.loads options := by
  simp [log, calls, asks, reply?, h]

theorem reply?_of_class? {c : FilterClass} (hread : t.step.IsReadable)
    (h : t.class? options = some c) :
    t.reply? options = some (c.codec.transform (t.step.flags ||| options.callFlags) t.step.words
      t.came.buffer.nbytes t.came.buffer.data) := by
  rw [reply?, h, hread.words?_eq, flags_eq]
  rfl

theorem reply?_of_unreadable {c : FilterClass} (hread : ¬ t.step.IsReadable)
    (h : t.class? options = some c) : t.reply? options = some .crashed := by
  rw [reply?, h, FilterStep.words?_eq_none_iff.2 hread]
  rfl

theorem exists_class? {n : Nat} {data : Bytes} (h : t.reply? options = some (.produced n data)) :
    ∃ c, t.class? options = some c ∧ c.codec.transform (t.flags options) t.step.words
      t.came.buffer.nbytes t.came.buffer.data = .produced n data := by
  obtain ⟨c, hc, hreply⟩ := Option.map_eq_some_iff.1 h
  refine ⟨c, hc, ?_⟩
  split at hreply
  · next words hwords =>
    rw [FilterStep.words_eq hwords]
    exact hreply
  · cases hreply

theorem log_of_unreadable {c : FilterClass} (hread : ¬ t.step.IsReadable)
    (h : t.class? options = some c) :
    t.log options = .lookup t.index t.step.id :: t.loads options := by
  simp [log, calls, asks, h, reply?_of_unreadable hread h, FilterStep.words?_eq_none_iff.2 hread]

theorem log_of_class? {c : FilterClass} (hread : t.step.IsReadable)
    (h : t.class? options = some c) :
    t.log options = (.lookup t.index t.step.id :: t.loads options) ++
      (.call c.origin c.id (t.step.flags ||| options.callFlags) t.step.words t.came.buffer.nbytes
        t.came.buffer.size :: t.asks options) := by
  simp [log, calls, h, hread.words?_eq, flags_eq]

theorem asks_of_failed {data : Bytes} (h : t.reply? options = some (.produced 0 data)) :
    t.asks options = (t.shown? options data).toList.map (.callback t.step.id) := by
  rw [asks, h]
  rfl

theorem asks_of_not_failed {reply : Reply} (h : t.reply? options = some reply)
    (hreply : ∀ data, reply ≠ .produced 0 data) : t.asks options = [] := by
  rw [asks, h]
  split
  · next data hdata => exact absurd (Option.some.inj hdata) (hreply data)
  · rfl

theorem leaves_of_absent (h : t.reply? options = none) : t.leaves options = t.came.buffer := by
  rw [leaves, h]

theorem leaves_of_applied {n : Nat} {data : Bytes} (h : t.reply? options = some (.produced (n + 1) data)) :
    t.leaves options = ⟨data, n + 1⟩ := by
  rw [leaves, h]

theorem leaves_of_mayFail {data : Bytes} (h : t.reply? options = some (.produced 0 data))
    (hmay : t.MayFail options) : t.leaves options = ⟨data, t.came.buffer.nbytes⟩ := by
  rw [leaves, h]
  dsimp only
  rw [if_pos hmay]

theorem leaves_of_mustNot {data : Bytes} (h : t.reply? options = some (.produced 0 data))
    (hmust : ¬ t.MayFail options) : t.leaves options = .ofBytes data := by
  rw [leaves, h]
  dsimp only
  rw [if_neg hmust]
  rfl

end Turn

/-! ### One turn -/

section Turns

variable [CodecSource σ] {options : Options} {t : Turn σ}

/-- What the source counts when it is asked at a turn to load a class. -/
def Turn.loadCounts (options : Options) (t : Turn σ) : List Metrics.Update :=
  if options.direction = .read ∧ t.found = none then (CodecSource.load t.came.source t.step).metrics
  else []

/-- The source after it has been asked at a turn. -/
def Turn.source (options : Options) (t : Turn σ) : σ :=
  if options.direction = .read ∧ t.found = none then (CodecSource.load t.came.source t.step).source
  else t.came.source

/-- A class is asked for and found, and nothing else happens. -/
structure Turn.FoundBy (options : Options) (t : Turn σ) (q : Progress σ) : Prop where
  events : q.events = t.came.events ++ .lookup t.index t.step.id :: t.loads options
  metrics : q.metrics = t.came.metrics ++ t.loadCounts options
  source : q.source = t.source options
  mask : q.mask = t.came.mask
  buffer : q.buffer = t.came.buffer

theorem Turn.foundBy_known {c : FilterClass} (h : t.found = some c) :
    t.FoundBy options (t.came.note (.lookup t.index t.step.id)) := by
  have hknown : ¬ (options.direction = .read ∧ t.found = none) := by simp [h]
  refine ⟨?_, ?_, ?_, rfl, rfl⟩
  · rw [Turn.loads, if_neg hknown]
    rfl
  · rw [Turn.loadCounts, if_neg hknown, List.append_nil]
    rfl
  · rw [Turn.source, if_neg hknown]
    rfl

theorem Turn.foundBy_write (h : options.direction = .write) :
    t.FoundBy options (t.came.note (.lookup t.index t.step.id)) := by
  have hwrite : ¬ (options.direction = .read ∧ t.found = none) := by simp [h]
  refine ⟨?_, ?_, ?_, rfl, rfl⟩
  · rw [Turn.loads, if_neg hwrite]
    rfl
  · rw [Turn.loadCounts, if_neg hwrite, List.append_nil]
    rfl
  · rw [Turn.source, if_neg hwrite]
    rfl

theorem Turn.foundBy_loading (hr : options.direction = .read) (h : t.found = none) :
    t.FoundBy options (t.came.loading t.index t.step) := by
  have hloads : options.direction = .read ∧ t.found = none := ⟨hr, h⟩
  refine ⟨?_, ?_, ?_, rfl, rfl⟩
  · rw [Turn.loads, if_pos hloads]
    simp [Progress.loading, Progress.note]
  · rw [Turn.loadCounts, if_pos hloads]
    rfl
  · rw [Turn.source, if_pos hloads]
    rfl

theorem Finds.foundBy {c : FilterClass} {q : Progress σ}
    (h : Finds options t.index t.step t.came c q) : t.FoundBy options q := by
  cases h with
  | known hc => exact Turn.foundBy_known hc
  | loaded hr hc => exact Turn.foundBy_loading hr hc

theorem Finds.class? {c : FilterClass} {q : Progress σ}
    (h : Finds options t.index t.step t.came c q) : t.class? options = some c :=
  classFor_eq_some_iff.2 ⟨q, h⟩

/-- The run has gone on after a turn. -/
structure Turn.Went (options : Options) (t : Turn σ) (p' : Progress σ) : Prop where
  events : p'.events = t.came.events ++ t.log options
  source : p'.source = t.source options
  buffer : p'.buffer = t.leaves options
  /-- A step that was skipped is marked, and that is counted. -/
  fate : t.Applied options ∧ p'.mask = t.came.mask ∧
      p'.metrics = t.came.metrics ++ t.loadCounts options ∨
    t.Skipped options ∧ p'.mask = t.came.mask.set t.index ∧
      p'.metrics = t.came.metrics ++ t.loadCounts options ++ [.count Metrics.stepsSkipped 1]

/-- The run has ended at a turn. -/
structure Turn.Ended (options : Options) (t : Turn σ) (p' : Progress σ) : Prop where
  events : p'.events = t.came.events ++ t.log options
  source : p'.source = t.source options
  mask : p'.mask = t.came.mask
  metrics : p'.metrics = t.came.metrics ++ t.loadCounts options
  fatal : ¬ t.Goes options

theorem Turn.Went.isSet_of_ne {p' : Progress σ} (h : t.Went options p') {i : Nat}
    (hi : i ≠ t.index) : p'.mask.isSet i = t.came.mask.isSet i := by
  rcases h.fate with ⟨-, hmask, -⟩ | ⟨-, hmask, -⟩
  · rw [hmask]
  · rw [hmask, FilterMask.isSet_set, decide_eq_false hi.symm, Bool.and_false, Bool.or_false]

theorem Turn.FoundBy.events_call {c : FilterClass} {q : Progress σ} (hq : t.FoundBy options q)
    (hread : t.step.IsReadable) (hc : t.class? options = some c) :
    (q.noteCall c (t.step.flags ||| options.callFlags) t.step.words).events ++ t.asks options =
      t.came.events ++ t.log options := by
  rw [Turn.log_of_class? hread hc, Progress.noteCall, Progress.note, hq.events, hq.buffer]
  simp

/-- What is asked for when the codec has failed: the call, and the callback if it is shown something. -/
theorem Turn.FoundBy.events_failed {c : FilterClass} {q : Progress σ} (hq : t.FoundBy options q)
    (hread : t.step.IsReadable) (hc : t.class? options = some c) {data : Bytes}
    (hfailed : t.reply? options = some (.produced 0 data)) {shown : Option Bytes}
    (hshown : t.shown? options data = shown) :
    (q.noteCall c (t.step.flags ||| options.callFlags) t.step.words).events ++
        shown.toList.map (.callback t.step.id) = t.came.events ++ t.log options := by
  rw [← hshown, ← Turn.asks_of_failed hfailed]
  exact hq.events_call hread hc

theorem Turn.class?_of_write (hw : options.direction = .write)
    (hc : CodecSource.codec t.came.source t.index t.step = none) : t.class? options = none := by
  unfold Turn.class? classFor
  rw [hc, hw]

omit [CodecSource σ] in
theorem Turn.not_mayFail (h : options.direction = .write → t.step.isOptional = false) :
    ¬ t.MayFail options := fun hmay => by cases (h hmay.1).symm.trans hmay.2

theorem went_of_forgives {c : FilterClass} {p' q : Progress σ} {data : Bytes}
    (hread : t.step.IsReadable) (hc : Finds options t.index t.step t.came c q)
    (hfailed : t.reply? options = some (.produced 0 data))
    (h : Forgives options t.index t.step
      ((q.noteCall c (t.step.flags ||| options.callFlags) t.step.words).leave data
        t.came.buffer.nbytes) p') : t.Went options p' := by
  have hq := hc.foundBy
  have hmask (q' : Progress σ) (hq' : q'.mask = q.mask) :
      (q'.skip t.index).mask = t.came.mask.set t.index :=
    congrArg (·.set t.index) (hq'.trans hq.mask)
  have hmetrics := congrArg (· ++ [Metrics.Update.count Metrics.stepsSkipped 1]) hq.metrics
  cases h with
  | optional hw ho =>
    have hmay : t.MayFail options := ⟨hw, ho⟩
    have hevents := hq.events_failed hread hc.class? hfailed (Turn.shown?_of_mayFail hmay data)
    exact ⟨(List.append_nil _).symm.trans hevents, hq.source,
      (Turn.leaves_of_mayFail hfailed hmay).symm,
      .inr ⟨.inVain data hfailed (.inl hmay), hmask _ rfl, hmetrics⟩⟩
  | rescued callback seen hcallback hseen hgo hmust =>
    have hshown := (Turn.shown?_of_mustNot hmust hcallback data).trans hseen
    exact ⟨hq.events_failed hread hc.class? hfailed hshown, hq.source,
      (Turn.leaves_of_mustNot hfailed (Turn.not_mayFail hmust)).symm,
      .inr ⟨.inVain data hfailed (.inr ⟨callback, seen, hcallback, hseen, hgo⟩), hmask _ rfl,
        hmetrics⟩⟩

/-- **A turn after which the run goes on.** -/
theorem went_of_passes {p' : Progress σ} (hfree : t.came.mask.isSet t.index = false)
    (h : Passes options t.index t.step t.came p') : t.Went options p' := by
  cases h with
  | masked hm => cases hfree.symm.trans hm
  | absent hm hw hc ho =>
    have hq := t.foundBy_write hw
    have hclass := Turn.class?_of_write hw hc
    have hreply : t.reply? options = none := by
      rw [Turn.reply?, hclass]
      rfl
    refine ⟨?_, hq.source, (Turn.leaves_of_absent hreply).symm,
      .inr ⟨.absent hreply ⟨hw, ho⟩, rfl, ?_⟩⟩
    · rw [Turn.log_of_class?_eq_none hclass]
      exact hq.events
    · exact congrArg (· ++ [Metrics.Update.count Metrics.stepsSkipped 1]) hq.metrics
  | applied hm c q hc n data ht hread =>
    have hq := hc.foundBy
    have hreply := (Turn.reply?_of_class? hread hc.class?).trans (congrArg some ht)
    have hasks : t.asks options = [] := Turn.asks_of_not_failed hreply nofun
    refine ⟨?_, hq.source, (Turn.leaves_of_applied hreply).symm,
      .inl ⟨⟨n, data, hreply⟩, hq.mask, hq.metrics⟩⟩
    rw [← hq.events_call hread hc.class?, hasks, List.append_nil]
    rfl
  | forgiven hm c q p' hc data ht hf hread =>
    exact went_of_forgives hread hc
      ((Turn.reply?_of_class? hread hc.class?).trans (congrArg some ht)) hf

theorem Turn.not_goes_of_class?_eq_none (h : t.class? options = none) (hmust : ¬ t.MayFail options) :
    ¬ t.Goes options := by
  have hreply : t.reply? options = none := by
    rw [Turn.reply?, h]
    rfl
  rintro (⟨n, data, happlied⟩ | ⟨-, hmay⟩ | ⟨data, hfailed, -⟩)
  · cases hreply.symm.trans happlied
  · exact hmust hmay
  · cases hreply.symm.trans hfailed

theorem Turn.not_goes_of_failed {data : Bytes} (h : t.reply? options = some (.produced 0 data))
    (hmust : ¬ t.MayFail options) (hstop : ¬ t.Rescued options data) : ¬ t.Goes options := by
  rintro (⟨n, data', happlied⟩ | ⟨hnone, -⟩ | ⟨data', hfailed, hgo⟩)
  · cases h.symm.trans happlied
  · cases h.symm.trans hnone
  · obtain rfl := (Reply.produced.inj (Option.some.inj (h.symm.trans hfailed))).2
    exact hgo.elim hmust hstop

theorem Turn.not_goes_of_crashed (h : t.reply? options = some .crashed) : ¬ t.Goes options := by
  rintro (⟨n, data, happlied⟩ | ⟨hnone, -⟩ | ⟨data, hfailed, -⟩)
  · cases h.symm.trans happlied
  · cases h.symm.trans hnone
  · cases h.symm.trans hfailed

theorem ended_of_condemns {c : FilterClass} {p' q : Progress σ} {data : Bytes} {fault : Fault}
    (hread : t.step.IsReadable) (hc : Finds options t.index t.step t.came c q)
    (hfailed : t.reply? options = some (.produced 0 data))
    (h : Condemns options t.step
      ((q.noteCall c (t.step.flags ||| options.callFlags) t.step.words).leave data
        t.came.buffer.nbytes) fault p') : t.Ended options p' := by
  have hq := hc.foundBy
  cases h with
  | unasked hno hmust =>
    have hstop : ¬ t.Rescued options data := by
      rintro ⟨callback, -, hcallback, -⟩
      cases hno.symm.trans hcallback
    have hshown : t.shown? options data = none := if_neg (by simp [hno])
    exact ⟨(List.append_nil _).symm.trans (hq.events_failed hread hc.class? hfailed hshown), hq.source,
      hq.mask, hq.metrics, Turn.not_goes_of_failed hfailed (Turn.not_mayFail hmust) hstop⟩
  | refused callback seen hcallback hseen hfail hmust =>
    have hstop : ¬ t.Rescued options data := by
      rintro ⟨callback', seen', hcallback', hseen', hgo⟩
      obtain rfl := Option.some.inj (hcallback.symm.trans hcallback')
      obtain rfl := Option.some.inj (hseen.symm.trans hseen')
      cases hfail.symm.trans hgo
    have hshown := (Turn.shown?_of_mustNot hmust hcallback data).trans hseen
    exact ⟨hq.events_failed hread hc.class? hfailed hshown, hq.source, hq.mask, hq.metrics,
      Turn.not_goes_of_failed hfailed (Turn.not_mayFail hmust) hstop⟩
  | unseen callback hcallback hw hno hmust =>
    have hunseen : options.seen? ⟨data, t.came.buffer.nbytes⟩ = none := by
      rw [Options.seen?, hw]
      exact hno
    have hstop : ¬ t.Rescued options data := by
      rintro ⟨-, seen, -, hseen, -⟩
      cases hunseen.symm.trans hseen
    have hshown := (Turn.shown?_of_mustNot (fun _ => hmust) hcallback data).trans hunseen
    exact ⟨(List.append_nil _).symm.trans (hq.events_failed hread hc.class? hfailed hshown), hq.source,
      hq.mask, hq.metrics,
      Turn.not_goes_of_failed hfailed (Turn.not_mayFail fun _ => hmust) hstop⟩

/-- **A turn at which the run ends.** -/
theorem ended_of_stops {fault : Fault} {p' : Progress σ}
    (h : Stops options t.index t.step t.came fault p') : t.Ended options p' := by
  cases h with
  | unregistered hm hw hc ho =>
    have hq := t.foundBy_write hw
    have hclass := Turn.class?_of_write hw hc
    refine ⟨?_, hq.source, rfl, hq.metrics,
      Turn.not_goes_of_class?_eq_none hclass (Turn.not_mayFail fun _ => ho)⟩
    rw [Turn.log_of_class?_eq_none hclass]
    exact hq.events
  | unloaded hm hr hc error hl =>
    have hq := Turn.foundBy_loading (t := t) hr hc
    have hclass : t.class? options = none := by
      unfold Turn.class? classFor
      rw [hc, hr]
      rcases hl with hl | ⟨hl, -⟩ <;> rw [hl]
    have hmust : ¬ t.MayFail options := fun hmay => by cases hr.symm.trans hmay.1
    refine ⟨?_, hq.source, rfl, hq.metrics, Turn.not_goes_of_class?_eq_none hclass hmust⟩
    rw [Turn.log_of_class?_eq_none hclass]
    exact hq.events
  | unreadable hm c q hc hread =>
    have hq := hc.foundBy
    have hcrash := Turn.not_goes_of_crashed (Turn.reply?_of_unreadable hread hc.class?)
    refine ⟨?_, hq.source, hq.mask, hq.metrics, hcrash⟩
    rw [Turn.log_of_unreadable hread hc.class?]
    exact hq.events
  | crashed hm c q hc ht hread =>
    have hq := hc.foundBy
    have hreply := (Turn.reply?_of_class? hread hc.class?).trans (congrArg some ht)
    have hasks : t.asks options = [] := Turn.asks_of_not_failed hreply nofun
    refine ⟨?_, hq.source, hq.mask, hq.metrics, Turn.not_goes_of_crashed hreply⟩
    rw [← hq.events_call hread hc.class?, hasks, List.append_nil]
  | condemned hm c q p' hc data ht fault hf hread =>
    exact ended_of_condemns hread hc
      ((Turn.reply?_of_class? hread hc.class?).trans (congrArg some ht)) hf

/-! ### The turns of steps -/

/-- The step of a turn with its position. -/
def Turn.numbered (t : Turn σ) : FilterStep × Nat := (t.step, t.index)

/-- The turns that a run of steps takes, up to the one that ends it. -/
def turns (options : Options) : List (FilterStep × Nat) → Progress σ → List (Turn σ)
  | [], _ => []
  | (step, index) :: rest, p =>
    let later := match runStep options index step p with
      | (.ok (), q) => turns options rest q
      | (.error _, _) => []
    if p.mask.isSet index then later else ⟨step, index, p⟩ :: later

/-- A run of steps, turn by turn. -/
inductive Takes (options : Options) :
    List (FilterStep × Nat) → Progress σ → List (Turn σ) → Stage σ Unit → Prop
  | done (p : Progress σ) : Takes options [] p [] (.ok (), p)
  | masked {x : FilterStep × Nat} {rest : List (FilterStep × Nat)} {p : Progress σ}
      {ts : List (Turn σ)} {stage : Stage σ Unit} (hm : p.mask.isSet x.2 = true)
      (h : Takes options rest p ts stage) : Takes options (x :: rest) p ts stage
  | went {t : Turn σ} {q : Progress σ} {rest : List (FilterStep × Nat)} {ts : List (Turn σ)}
      {stage : Stage σ Unit} (hfree : t.came.mask.isSet t.index = false) (hwent : t.Went options q)
      (h : Takes options rest q ts stage) :
      Takes options (t.numbered :: rest) t.came (t :: ts) stage
  | ended {t : Turn σ} {p' : Progress σ} {fault : Fault} {rest : List (FilterStep × Nat)}
      (hfree : t.came.mask.isSet t.index = false) (hended : t.Ended options p') :
      Takes options (t.numbered :: rest) t.came [t] (.error fault, p')

/-- **A run of steps takes its turns.** -/
theorem takes_runSteps (options : Options) (steps : List (FilterStep × Nat)) (p : Progress σ) :
    Takes options steps p (turns options steps p) (runSteps options steps p) := by
  induction steps generalizing p with
  | nil => exact .done p
  | cons x rest ih =>
    rw [turns, runSteps]
    cases hm : p.mask.isSet x.2 with
    | true =>
      rw [runStep_masked hm]
      exact .masked hm (ih p)
    | false =>
      rcases hstep : runStep options x.2 x.1 p with ⟨fault | ⟨⟩, q⟩
      · exact .ended (t := ⟨x.1, x.2, p⟩) hm (ended_of_stops (stops_of_runStep hstep))
      · exact .went (t := ⟨x.1, x.2, p⟩) hm (went_of_passes hm (passes_of_runStep hstep)) (ih q)

namespace Takes

variable {steps : List (FilterStep × Nat)} {p : Progress σ} {ts : List (Turn σ)}
  {stage : Stage σ Unit}

theorem first (h : Takes options steps p ts stage) : ∀ t ∈ ts.head?, t.came = p := by
  induction h with
  | done => nofun
  | masked _ _ ih => exact ih
  | went => simp
  | ended => simp

theorem chain (h : Takes options steps p ts stage) :
    ts.IsChain fun t u => t.Went options u.came := by
  induction h with
  | done => exact .nil
  | masked _ _ ih => exact ih
  | went _ hwent h ih =>
    refine ih.cons fun u hu => ?_
    rw [h.first u hu]
    exact hwent
  | ended => exact .singleton _

/-- **Everything that a run asks for it asks for at its turns.** -/
theorem events (h : Takes options steps p ts stage) :
    stage.2.events = p.events ++ ts.flatMap fun t => t.log options := by
  induction h with
  | done => exact (List.append_nil _).symm
  | masked _ _ ih => exact ih
  | went _ hwent _ ih => rw [ih, hwent.events, List.flatMap_cons, List.append_assoc]
  | ended _ hended => rw [hended.events, List.flatMap_singleton]

/-- **Steps are taken one after the other**, but for those left out, as far as the run gets. -/
theorem order {exclude : FilterMask} (h : Takes options steps p ts stage)
    (hnodup : (steps.map Prod.snd).Nodup)
    (hmask : ∀ x ∈ steps, p.mask.isSet x.2 = exclude.isSet x.2) :
    ts.map Turn.numbered <+: steps.filter (fun x => !exclude.isSet x.2) ∧
      (stage.1 = .ok () → ts.map Turn.numbered = steps.filter fun x => !exclude.isSet x.2) := by
  induction h with
  | done => exact ⟨List.prefix_rfl, fun _ => rfl⟩
  | @masked x _ _ _ _ hm _ ih =>
    rw [List.map_cons, List.nodup_cons] at hnodup
    have hout : exclude.isSet x.2 = true := (hmask x List.mem_cons_self).symm.trans hm
    rw [List.filter_cons_of_neg (by simp [hout])]
    exact ih hnodup.2 fun y hy => hmask y (List.mem_cons_of_mem x hy)
  | @went t q rest ts stage hfree hwent _ ih =>
    rw [List.map_cons, List.nodup_cons] at hnodup
    have hin : exclude.isSet t.index = false := (hmask t.numbered List.mem_cons_self).symm.trans hfree
    rw [List.filter_cons_of_pos (by simp [Turn.numbered, hin]), List.map_cons]
    -- the turn marks no step that is still to come
    have hmask' (y : FilterStep × Nat) (hy : y ∈ rest) : q.mask.isSet y.2 = exclude.isSet y.2 := by
      have hne : y.2 ≠ t.index := fun heq => hnodup.1 (List.mem_map.2 ⟨y, hy, heq⟩)
      exact (hwent.isSet_of_ne hne).trans (hmask y (List.mem_cons_of_mem _ hy))
    obtain ⟨htaken, hall⟩ := ih hnodup.2 hmask'
    exact ⟨List.cons_prefix_cons.2 ⟨rfl, htaken⟩, fun hok => congrArg _ (hall hok)⟩
  | @ended t _ _ rest hfree _ =>
    have hin : exclude.isSet t.index = false := (hmask t.numbered List.mem_cons_self).symm.trans hfree
    rw [List.filter_cons_of_pos (by simp [Turn.numbered, hin])]
    exact ⟨List.cons_prefix_cons.2 ⟨rfl, List.nil_prefix⟩, nofun⟩

/-- **A run that goes through goes on after each of its turns**, and one that does not ends at its last. -/
theorem fate (h : Takes options steps p ts stage) :
    (stage.1 = .ok () → ∀ t ∈ ts, t.Goes options) ∧
      ∀ fault, stage.1 = .error fault → ∃ going last, ts = going ++ [last] ∧
        (∀ t ∈ going, t.Goes options) ∧ ¬ last.Goes options := by
  induction h with
  | done => exact ⟨fun _ => nofun, nofun⟩
  | masked _ _ ih => exact ih
  | @went t _ _ _ _ _ hwent _ ih =>
    have hgoes : t.Goes options := hwent.fate.imp And.left And.left
    constructor
    · intro hok u hu
      rcases List.mem_cons.1 hu with rfl | hu
      · exact hgoes
      · exact ih.1 hok u hu
    · intro fault hfault
      obtain ⟨going, last, rfl, hgoing, hlast⟩ := ih.2 fault hfault
      refine ⟨t :: going, last, rfl, fun u hu => ?_, hlast⟩
      rcases List.mem_cons.1 hu with rfl | hu
      · exact hgoes
      · exact hgoing u hu
  | @ended t _ _ _ _ hended => exact ⟨nofun, fun _ _ => ⟨[], t, rfl, nofun, hended.fatal⟩⟩

end Takes

/-! ### The turns of a run -/

omit [CodecSource σ] in
theorem ok_of_ofStage {stage : Stage σ Unit} {outcome : Outcome}
    (h : (Run.ofStage stage).result = .ok outcome) : stage.1 = .ok () := by
  rcases stage with ⟨fault | ⟨⟩, p⟩
  · cases h
  · rfl

omit [CodecSource σ] in
theorem error_of_ofStage {stage : Stage σ Unit} {fault : Fault}
    (h : (Run.ofStage stage).result = .error fault) : stage.1 = .error fault := by
  rcases stage with ⟨fault' | ⟨⟩, p⟩
  · cases h
    rfl
  · cases h

/-- The turns of a run that starts. -/
def turnsOf (pipeline : FilterPipeline) (options : Options) (source : σ) (buffer : ChunkBuffer) :
    List (Turn σ) :=
  turns options (ordered options.direction pipeline.steps) ⟨buffer, options.exclude, source, [], []⟩

/-- The steps that a run is to take, in their order. -/
def toTake (pipeline : FilterPipeline) (options : Options) : List (FilterStep × Nat) :=
  (ordered options.direction pipeline.steps).filter fun x => !options.exclude.isSet x.2

/-- The course of a run, turn by turn. -/
structure IsCourse (pipeline : FilterPipeline) (options : Options) (source : σ) (buffer : ChunkBuffer)
    (ts : List (Turn σ)) : Prop where
  order : ts.map Turn.numbered <+: toTake pipeline options
  first : ∀ t ∈ ts.head?, t.came = ⟨buffer, options.exclude, source, [], []⟩
  /-- Each turn comes with what the one before it has left. -/
  chain : ts.IsChain fun t u => t.Went options u.came
  log : (run pipeline options source buffer).events = ts.flatMap fun t => t.log options
  through : ∀ outcome, (run pipeline options source buffer).result = .ok outcome →
    ts.map Turn.numbered = toTake pipeline options ∧ ∀ t ∈ ts, t.Goes options
  stopped : ∀ fault, (run pipeline options source buffer).result = .error fault →
    ∃ going last, ts = going ++ [last] ∧ (∀ t ∈ going, t.Goes options) ∧ ¬ last.Goes options

variable {pipeline : FilterPipeline} {source : σ} {buffer : ChunkBuffer}

theorem takes_turnsOf (pipeline : FilterPipeline) (options : Options) (source : σ)
    (buffer : ChunkBuffer) :
    Takes options (ordered options.direction pipeline.steps) ⟨buffer, options.exclude, source, [], []⟩
      (turnsOf pipeline options source buffer)
      (runSteps options (ordered options.direction pipeline.steps)
        ⟨buffer, options.exclude, source, [], []⟩) := takes_runSteps ..

/-- **A run that starts takes its course.** -/
theorem isCourse_run (hb : buffer.HasBytes) :
    IsCourse pipeline options source buffer (turnsOf pipeline options source buffer) := by
  have htakes := takes_turnsOf pipeline options source buffer
  have hrun : (run pipeline options source buffer).SameCourse _ :=
    sameCourse_run hb pipeline options.exclude
  obtain ⟨htaken, hall⟩ := htakes.order (nodup_ordered ..) fun _ _ => rfl
  obtain ⟨hgo, hstop⟩ := htakes.fate
  refine ⟨htaken, htakes.first, htakes.chain, ?_, fun outcome h => ?_, fun fault h => ?_⟩
  · rw [hrun.events]
    exact htakes.events
  · have hok := ok_of_ofStage (hrun.result.symm.trans h)
    exact ⟨hall hok, hgo hok⟩
  · exact hstop fault (error_of_ofStage (hrun.result.symm.trans h))

theorem IsCourse.mem_ordered {ts : List (Turn σ)} (h : IsCourse pipeline options source buffer ts)
    (ht : t ∈ ts) : t.numbered ∈ ordered options.direction pipeline.steps :=
  (List.mem_filter.1 (h.order.subset (List.mem_map_of_mem ht))).1

end Turns

end FilteredChunks.Engine
