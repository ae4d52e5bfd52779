import FilteredChunks.FilterRegistry
import FilteredChunks.Proofs.Engine.Askers

/-!
# Steps at other positions

A registry knows a class by its number alone.  So a step does the same wherever it stands, except that it
is looked up and marked under its position.  `placed` puts a progress into another run, in which the steps
stand where `place` says and something else came before.  A step commutes with it (`runStep_placed`), and
by induction so do any steps (`runSteps_placed`).

`behind` is the case that the other run is a longer one, with the steps numbered from some position on
(`runSteps_behind`).
-/

namespace FilteredChunks

/-! ### Masks side by side -/

namespace FilterMask

instance : OrOp FilterMask := ⟨fun a b => ⟨a.bits ||| b.bits⟩⟩

instance : HShiftLeft FilterMask Nat FilterMask := ⟨fun mask n => ⟨mask.bits <<< n⟩⟩

/-- Only positions below `n` are marked. -/
def Within (mask : FilterMask) (n : Nat) : Prop := ∀ i, n ≤ i → mask.isSet i = false

theorem isSet_or (a b : FilterMask) (i : Nat) : (a ||| b).isSet i = (a.isSet i || b.isSet i) :=
  BitVec.getLsbD_or

theorem isSet_shiftLeft_add (mask : FilterMask) (k i : Nat) :
    (mask <<< k).isSet (k + i) = (decide (k + i < 32) && mask.isSet i) := by
  refine (BitVec.getLsbD_shiftLeft ..).trans ?_
  have hk : ¬ k + i < k := by omega
  rw [Nat.add_sub_cancel_left]
  simp [isSet, hk]

theorem isSet_shiftLeft_of_lt (mask : FilterMask) {k i : Nat} (h : i < k) :
    (mask <<< k).isSet i = false := by
  refine (BitVec.getLsbD_shiftLeft ..).trans ?_
  simp [h]

theorem shiftLeft_zero (mask : FilterMask) : mask <<< 0 = mask :=
  congrArg FilterMask.mk (BitVec.shiftLeft_zero _)

theorem or_comm (a b : FilterMask) : a ||| b = b ||| a :=
  congrArg FilterMask.mk (BitVec.or_comm ..)

theorem or_empty (mask : FilterMask) : mask ||| empty = mask :=
  congrArg FilterMask.mk (BitVec.or_zero ..)

theorem ext_isSet {a b : FilterMask} (h : ∀ i, a.isSet i = b.isSet i) : a = b := by
  cases a
  cases b
  exact congrArg FilterMask.mk (BitVec.eq_of_getLsbD_eq fun i _ => h i)

theorem lt_of_isSet {mask : FilterMask} {i : Nat} (h : mask.isSet i = true) : i < 32 :=
  BitVec.lt_of_getLsbD h

/-! ### Masks over other positions -/

/-- The same marks, each put where `place` says. -/
def placed (mask : FilterMask) (place : Nat → Nat) : FilterMask :=
  ((List.range 32).filter mask.isSet).foldl (fun marks i => marks.set (place i)) empty

variable {place : Nat → Nat}

theorem isSet_foldl_set (positions : List Nat) (marks : FilterMask) (j : Nat) :
    (positions.foldl (fun marks i => marks.set (place i)) marks).isSet j = true ↔
      marks.isSet j = true ∨ j < 32 ∧ ∃ i ∈ positions, place i = j := by
  induction positions generalizing marks with
  | nil => simp
  | cons i rest ih =>
    rw [List.foldl_cons, ih, isSet_set, Bool.or_eq_true, Bool.and_eq_true, decide_eq_true_iff,
      decide_eq_true_iff, List.exists_mem_cons_iff]
    constructor
    · rintro ((hmarks | ⟨hlt, rfl⟩) | ⟨hlt, hrest⟩)
      · exact .inl hmarks
      · exact .inr ⟨hlt, .inl rfl⟩
      · exact .inr ⟨hlt, .inr hrest⟩
    · rintro (hmarks | ⟨hlt, rfl | hrest⟩)
      · exact .inl (.inl hmarks)
      · exact .inl (.inr ⟨hlt, rfl⟩)
      · exact .inr ⟨hlt, hrest⟩

theorem isSet_placed_iff (mask : FilterMask) (j : Nat) :
    (mask.placed place).isSet j = true ↔ j < 32 ∧ ∃ i, mask.isSet i = true ∧ place i = j := by
  unfold placed
  rw [isSet_foldl_set, isSet_empty]
  constructor
  · rintro (hempty | ⟨hlt, i, hi, hplace⟩)
    · cases hempty
    · exact ⟨hlt, i, (List.mem_filter.1 hi).2, hplace⟩
  · rintro ⟨hlt, i, hset, hplace⟩
    exact .inr ⟨hlt, i, List.mem_filter.2 ⟨List.mem_range.2 (lt_of_isSet hset), hset⟩, hplace⟩

theorem isSet_placed (mask : FilterMask) {i : Nat} (hlt : place i < 32)
    (hplace : ∀ j, place j = place i → j = i) : (mask.placed place).isSet (place i) = mask.isSet i := by
  rw [Bool.eq_iff_iff, isSet_placed_iff]
  constructor
  · rintro ⟨-, j, hset, heq⟩
    rw [← hplace j heq]
    exact hset
  · intro hset
    exact ⟨hlt, i, hset, rfl⟩

theorem placed_empty (place : Nat → Nat) : empty.placed place = empty := by
  refine ext_isSet fun j => ?_
  rw [Bool.eq_iff_iff, isSet_placed_iff]
  simp

theorem or_placed_set (low mask : FilterMask) {i : Nat} (hi : i < 32) (hlt : place i < 32) :
    low ||| (mask.set i).placed place = (low ||| mask.placed place).set (place i) := by
  refine ext_isSet fun j => ?_
  rw [isSet_set, isSet_or, isSet_or, Bool.or_assoc]
  congr 1
  rw [Bool.eq_iff_iff, isSet_placed_iff, Bool.or_eq_true, isSet_placed_iff]
  simp only [isSet_set, Bool.or_eq_true, Bool.and_eq_true, decide_eq_true_iff]
  constructor
  · rintro ⟨hj, k, hset | ⟨-, rfl⟩, rfl⟩
    · exact .inl ⟨hj, k, hset, rfl⟩
    · exact .inr ⟨hlt, rfl⟩
  · rintro (⟨hj, k, hset, rfl⟩ | ⟨-, rfl⟩)
    · exact ⟨hj, k, .inl hset, rfl⟩
    · exact ⟨hlt, i, .inr ⟨hi, rfl⟩, rfl⟩

theorem shiftLeft_eq_placed (mask : FilterMask) (k : Nat) : mask <<< k = mask.placed (k + ·) := by
  refine ext_isSet fun j => ?_
  rcases Nat.lt_or_ge j k with hj | hj
  · rw [isSet_shiftLeft_of_lt mask hj, eq_comm, Bool.eq_false_iff, ne_eq, isSet_placed_iff]
    rintro ⟨-, i, -, rfl⟩
    omega
  · obtain ⟨i, rfl⟩ := Nat.exists_eq_add_of_le hj
    rw [isSet_shiftLeft_add]
    rcases Nat.lt_or_ge (k + i) 32 with hlt | hge
    · rw [isSet_placed mask hlt fun j hj => Nat.add_left_cancel hj]
      simp [hlt]
    · rw [eq_comm, decide_eq_false (by omega), Bool.false_and, Bool.eq_false_iff, ne_eq,
        isSet_placed_iff]
      rintro ⟨hlt, -⟩
      omega

end FilterMask

namespace Engine

variable {σ : Type}

/-! ### Numbering -/

/-- The event of the same step standing where `place` says. -/
def Event.placed (place : Nat → Nat) : Event → Event
  | .lookup index id => .lookup (place index) id
  | event => event

/-- A step standing where `place` says. -/
def placed (place : Nat → Nat) (x : FilterStep × Nat) : FilterStep × Nat := (x.1, place x.2)

/-- The event of the same step numbered from `k` on. -/
def Event.numberedFrom (k : Nat) : Event → Event
  | .lookup index id => .lookup (k + index) id
  | event => event

/-- A step numbered from `k` on. -/
def numberedFrom (k : Nat) (x : FilterStep × Nat) : FilterStep × Nat := (x.1, k + x.2)

theorem Event.numberedFrom_eq (k : Nat) (event : Event) :
    event.numberedFrom k = event.placed (k + ·) := by
  cases event with
  | lookup => rfl
  | load => rfl
  | call => rfl
  | callback => rfl

theorem Event.numberedFrom_zero (event : Event) : event.numberedFrom 0 = event := by
  cases event with
  | lookup index id => exact congrArg (Event.lookup · id) (Nat.zero_add index)
  | load => rfl
  | call => rfl
  | callback => rfl

theorem ordered_write_append (xs ys : List FilterStep) :
    ordered .write (xs ++ ys) =
      ordered .write xs ++ (ordered .write ys).map (numberedFrom xs.length) := by
  rw [ordered, List.zipIdx_append, Nat.zero_add]
  exact congrArg (xs.zipIdx ++ ·) List.zipIdx_eq_map_add

theorem ordered_read_append (xs ys : List FilterStep) :
    ordered .read (xs ++ ys) =
      (ordered .read ys).map (numberedFrom xs.length) ++ ordered .read xs := by
  have h := congrArg List.reverse (ordered_write_append xs ys)
  rw [List.reverse_append, ← List.map_reverse] at h
  exact h

theorem map_numberedFrom_zero (steps : List (FilterStep × Nat)) :
    steps.map (numberedFrom 0) = steps := by
  refine List.map_id'' (fun x => ?_) steps
  rw [numberedFrom, Nat.zero_add]

/-- A progress in another run: the steps stand where `place` says, and `before` is what that run had
marked, asked for and counted when it came to them. -/
def Progress.placed (p before : Progress σ) (place : Nat → Nat) : Progress σ where
  buffer := p.buffer
  mask := before.mask ||| p.mask.placed place
  source := p.source
  events := before.events ++ p.events.map (·.placed place)
  metrics := before.metrics ++ p.metrics

/-- A stage in another run. -/
def placedStage {α : Type} (stage : Stage σ α) (before : Progress σ) (place : Nat → Nat) :
    Stage σ α :=
  (stage.1, stage.2.placed before place)

/-- A progress in a longer run: the steps are numbered from `k` on, and `before` is what that run had
marked, asked for and counted when it came to them. -/
def Progress.behind (p before : Progress σ) (k : Nat) : Progress σ where
  buffer := p.buffer
  mask := before.mask ||| p.mask <<< k
  source := p.source
  events := before.events ++ p.events.map (·.numberedFrom k)
  metrics := before.metrics ++ p.metrics

/-- A stage in a longer run. -/
def behind {α : Type} (stage : Stage σ α) (before : Progress σ) (k : Nat) : Stage σ α :=
  (stage.1, stage.2.behind before k)

/-- To be numbered from a position on is to stand that much further on. -/
theorem Progress.behind_eq (p before : Progress σ) (k : Nat) :
    p.behind before k = p.placed before (k + ·) := by
  unfold behind placed
  rw [FilterMask.shiftLeft_eq_placed, funext (Event.numberedFrom_eq k)]

/-! ### One step -/

section Steps

variable {options : Options} {index : Nat} {step : FilterStep} {place : Nat → Nat}
  (p before : Progress σ)

theorem Progress.placed_note {event : Event} (h : event.position? = none) :
    (p.note event).placed before place = (p.placed before place).note event := by
  have hevent : event.placed place = event := by
    cases event with
    | lookup => cases h
    | load => rfl
    | call => rfl
    | callback => rfl
  dsimp only [placed, note]
  rw [List.map_append, List.map_singleton, hevent, List.append_assoc]

theorem Progress.placed_lookup (id : FilterId) :
    (p.note (.lookup index id)).placed before place =
      (p.placed before place).note (.lookup (place index) id) := by
  dsimp only [placed, note]
  rw [List.map_append, List.map_singleton, List.append_assoc]
  rfl

variable (hindex : index < 32) (hplace : place index < 32)

include hindex hplace

theorem Progress.placed_skip :
    (p.skip index).placed before place = (p.placed before place).skip (place index) := by
  dsimp only [placed, skip]
  rw [FilterMask.or_placed_set _ _ hindex hplace, List.append_assoc]

theorem consult_placed (id : FilterId) (seen : Bytes) (fault : FilterError) :
    consult options (place index) id seen fault (p.placed before place) =
      placedStage (consult options index id seen fault p) before place := by
  unfold consult
  split
  · rfl
  next callback _ =>
  dsimp only
  have hnote : (p.placed before place).note (.callback id seen) =
      (p.note (.callback id seen)).placed before place := (p.placed_note before rfl).symm
  rw [hnote]
  cases callback id seen with
  | fail => rfl
  | «continue» =>
    have hskip := Progress.placed_skip ((p.note (.callback id seen)).leave p.buffer.data p.buffer.size)
      before hindex hplace
    exact congrArg (Except.ok (), ·) hskip.symm

theorem failedWrite_placed :
    failedWrite options (place index) step (p.placed before place) =
      placedStage (failedWrite options index step p) before place := by
  unfold failedWrite
  split
  · exact congrArg (Except.ok (), ·) (p.placed_skip before hindex hplace).symm
  have hbuffer : (p.placed before place).buffer = p.buffer := rfl
  dsimp only
  rw [hbuffer]
  split
  · rfl
  · exact consult_placed p before hindex hplace ..

theorem callCodec_placed (c : FilterClass) :
    callCodec options (place index) step c (p.placed before place) =
      placedStage (callCodec options index step c p) before place := by
  have hbuffer : (p.placed before place).buffer = p.buffer := rfl
  unfold callCodec
  split
  · rfl
  next words _ =>
  have hcall : (p.placed before place).noteCall c (step.flags ||| options.callFlags) words =
      (p.noteCall c (step.flags ||| options.callFlags) words).placed before place :=
    (p.placed_note before rfl).symm
  dsimp only
  rw [hbuffer, hcall]
  split
  · rfl
  · rfl
  next data _ =>
  have hleave : ((p.noteCall c (step.flags ||| options.callFlags) words).placed before
      place).leave data p.buffer.nbytes =
        ((p.noteCall c (step.flags ||| options.callFlags) words).leave data
          p.buffer.nbytes).placed before place := rfl
  rw [hleave]
  cases options.direction with
  | write => exact failedWrite_placed _ before hindex hplace
  | read => exact consult_placed _ before hindex hplace ..

end Steps

section Progresses

variable {options : Options} {place : Nat → Nat} (p before : Progress FilterRegistry)

theorem missingCodec_placed {index : Nat} (hindex : index < 32) (hplace : place index < 32)
    (step : FilterStep) :
    missingCodec options (place index) step (p.placed before place) =
      placedStage (missingCodec options index step p) before place := by
  have hsource : (p.placed before place).source = p.source := rfl
  unfold missingCodec
  split
  · split
    · exact congrArg (Except.ok (), ·) (p.placed_skip before hindex hplace).symm
    · rfl
  dsimp only
  rw [hsource]
  -- what loading gives comes after what was there before
  have hloading : ({ (p.placed before place).note (.load step.id) with
      source := (CodecSource.load p.source step).source
      metrics := ((p.placed before place).note (.load step.id)).metrics ++
        (CodecSource.load p.source step).metrics } : Progress FilterRegistry) =
      Progress.placed { p.note (.load step.id) with
        source := (CodecSource.load p.source step).source
        metrics := (p.note (.load step.id)).metrics ++ (CodecSource.load p.source step).metrics }
        before place := by
    rw [← p.placed_note before rfl]
    dsimp only [Progress.placed]
    rw [List.append_assoc]
  rw [hloading]
  split
  · rfl
  · rfl
  · exact callCodec_placed _ before hindex hplace _

/-- A step can be put where `place` says: it has a bit there, nothing has marked it, and no other step is
put there. -/
structure Fits (before : FilterMask) (place : Nat → Nat) (index : Nat) : Prop where
  index_lt : index < 32
  place_lt : place index < 32
  free : before.isSet (place index) = false
  alone : ∀ j, place j = place index → j = index

/-- **A step does the same where it stands in another run.** -/
theorem runStep_placed {index : Nat} (h : Fits before.mask place index) (step : FilterStep) :
    runStep options (place index) step (p.placed before place) =
      placedStage (runStep options index step p) before place := by
  have hmask : (p.placed before place).mask.isSet (place index) = p.mask.isSet index := by
    refine (FilterMask.isSet_or ..).trans ?_
    rw [h.free, Bool.false_or]
    exact FilterMask.isSet_placed p.mask h.place_lt h.alone
  unfold runStep
  rw [hmask]
  split
  · rfl
  have hcodec : CodecSource.codec (p.placed before place).source (place index) step =
      CodecSource.codec p.source index step := rfl
  dsimp only
  rw [hcodec, ← p.placed_lookup before step.id]
  split
  · exact callCodec_placed _ before h.index_lt h.place_lt _
  · exact missingCodec_placed _ before h.index_lt h.place_lt step

/-- **Steps do the same where they stand in another run.** -/
theorem runSteps_placed {steps : List (FilterStep × Nat)}
    (h : ∀ x ∈ steps, Fits before.mask place x.2) :
    runSteps options (steps.map (placed place)) (p.placed before place) =
      placedStage (runSteps options steps p) before place := by
  induction steps generalizing p with
  | nil => rfl
  | cons x rest ih =>
    rw [List.map_cons, placed, runSteps, runSteps, runStep_placed p before (h x List.mem_cons_self)]
    rcases runStep options x.2 x.1 p with ⟨_ | ⟨⟩, q⟩
    · rfl
    · exact ih q fun y hy => h y (List.mem_cons_of_mem x hy)

/-- **Steps do the same at their positions in a longer run**, if nothing there has marked them. -/
theorem runSteps_behind {k : Nat} {steps : List (FilterStep × Nat)}
    (h : ∀ x ∈ steps, k + x.2 < 32 ∧ before.mask.isSet (k + x.2) = false) :
    runSteps options (steps.map (numberedFrom k)) (p.behind before k) =
      behind (runSteps options steps p) before k := by
  have hfits : ∀ x ∈ steps, Fits before.mask (k + ·) x.2 := by
    intro x hx
    obtain ⟨hlt, hfree⟩ := h x hx
    exact ⟨by omega, hlt, hfree, fun j hj => Nat.add_left_cancel hj⟩
  unfold behind
  rw [Progress.behind_eq, Progress.behind_eq]
  exact runSteps_placed p before hfits

end Progresses

end Engine

end FilteredChunks
