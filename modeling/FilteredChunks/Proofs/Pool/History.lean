import FilteredChunks.Pool.Machine
import Mathlib.Tactic.Common

/-!
# What happened in a pool

A run of a pool is looked at through the chunks that move in it: `history` lists, step by step, what
was put into the queue, what was taken from it and what was applied, with the result.  The lists
`entered`, `taken` and `applications` are read off a history, and `ends` counts the marks of the end.
-/

namespace FilteredChunks.Pool

/-- What a step does to the chunks of a pool. -/
inductive Happening
  /-- A chunk went into the queue. -/
  | entered (chunk : Chunk)
  /-- The end of the stream went into the queue. -/
  | ended
  /-- A worker took a chunk from the queue. -/
  | taken (chunk : Chunk)
  /-- The function was applied to a chunk, with this outcome. -/
  | applied (chunk : Chunk) (result : Except FilterError ChunkWrite)

/-! ### What a history tells -/

/-- The chunks that went into the queue. -/
def entered (h : List Happening) : List Chunk :=
  h.filterMap fun
    | .entered chunk => some chunk
    | _ => none

/-- The chunks that were taken from the queue. -/
def taken (h : List Happening) : List Chunk :=
  h.filterMap fun
    | .taken chunk => some chunk
    | _ => none

/-- The chunks that the function was applied to, with the outcomes. -/
def applications (h : List Happening) : List (Chunk × Except FilterError ChunkWrite) :=
  h.filterMap fun
    | .applied chunk result => some (chunk, result)
    | _ => none

/-- The chunks that the function was applied to. -/
def applied (h : List Happening) : List Chunk := (applications h).map Prod.fst

/-- How often the end of the stream went into the queue. -/
def ends (h : List Happening) : Nat := h.countP fun e => e matches .ended

/-- The outcome of an application. -/
def outcomeAt (x : Chunk × Except FilterError ChunkWrite) : ChunkOutcome :=
  ⟨x.1.index, x.1.offset, x.2⟩

@[simp]
theorem entered_nil : entered [] = [] := rfl

@[simp]
theorem applications_nil : applications [] = [] := rfl

@[simp]
theorem entered_append (g h : List Happening) : entered (g ++ h) = entered g ++ entered h :=
  List.filterMap_append

@[simp]
theorem taken_append (g h : List Happening) : taken (g ++ h) = taken g ++ taken h :=
  List.filterMap_append

@[simp]
theorem applications_append (g h : List Happening) :
    applications (g ++ h) = applications g ++ applications h :=
  List.filterMap_append

@[simp]
theorem applied_append (g h : List Happening) : applied (g ++ h) = applied g ++ applied h := by
  simp [applied]

@[simp]
theorem ends_append (g h : List Happening) : ends (g ++ h) = ends g + ends h :=
  List.countP_append

@[simp]
theorem length_applied (h : List Happening) : (applied h).length = (applications h).length :=
  List.length_map _

/-! ### The history of a run -/

variable {σ : Type}

/-- What the next step of a caller does. -/
def callerHappening (c : Caller) (core : Core σ) : List Happening :=
  match c.phase with
  | .counted chunk => if core.queue.closed then [] else [.entered chunk]
  | .closing => [.ended]
  | _ => []

/-- What the next step of a worker does. -/
def workerHappening (job : Job σ) (worker : Nat) (w : Worker) (core : Core σ) : List Happening :=
  match w with
  | .waiting =>
    match core.queue.take? with
    | some (.item chunk, _) => [.taken chunk]
    | _ => []
  | .busy chunk (.apply :: _) =>
    [.applied chunk (outcomeOf chunk (job.apply worker chunk core.shared).result)]
  | _ => []

theorem entered_callerHappening {c : Caller} {core : Core σ} (h : core.queue.closed = true) :
    entered (callerHappening c core) = [] := by
  unfold callerHappening
  split
  · rw [if_pos h, entered_nil]
  · rfl
  · rfl

theorem callerHappening_of_none {c : Caller} {core : Core σ} (h : callerStep c core = none) :
    callerHappening c core = [] := by
  obtain ⟨phase, calls, answers⟩ := c
  cases phase with
  | idle => rfl
  | counted chunk =>
    simp only [callerStep] at h
    split at h <;> cases h
  | reporting updates => cases updates <;> cases h
  | _ => cases h

theorem workerHappening_of_none {job : Job σ} {worker : Nat} {w : Worker} {core : Core σ}
    (h : workerStep job worker w core = none) : workerHappening job worker w core = [] := by
  cases w with
  | waiting =>
    have hnone : core.queue.take? = none := by
      rw [WorkQueue.take?_eq_none_iff, ← WorkQueue.isEmpty_iff]
      simpa [workerStep, Worker.isReady] using h
    simp only [workerHappening, hnone]
  | busy chunk duties => cases h
  | leaving duties => cases h
  | gone => rfl
  | dead report => rfl

namespace System

/-- What a step of a pool does. -/
def happening (job : Job σ) (s : System σ) : Actor → List Happening
  | .caller index => (s.callers[index]?).elim [] fun c => callerHappening c s.core
  | .worker index => (s.workers[index]?).elim [] fun w => workerHappening job index w s.core

/-- A pool goes on to `s'`, `e` being what happens: nobody does anything, or a caller or a worker takes
a step. -/
inductive Moves (job : Job σ) (s : System σ) : List Happening → System σ → Prop
  | none : Moves job s [] s
  | caller {i : Nat} {c c' : Caller} {core' : Core σ} (hc : s.callers[i]? = some c)
      (hstep : callerStep c s.core = some (c', core')) :
      Moves job s (callerHappening c s.core)
        { s with core := core', callers := s.callers.set i c' }
  | worker {i : Nat} {w w' : Worker} {core' : Core σ} (hw : s.workers[i]? = some w)
      (hstep : workerStep job i w s.core = some (w', core')) :
      Moves job s (workerHappening job i w s.core)
        { s with core := core', workers := s.workers.set i w' }

theorem moves_step (job : Job σ) (s : System σ) (actor : Actor) :
    s.Moves job (s.happening job actor) (s.step job actor) := by
  cases actor with
  | caller i =>
    simp only [step, happening]
    rcases hc : s.callers[i]? with - | c
    · exact .none
    · rcases hstep : callerStep c s.core with - | ⟨c', core'⟩
      · simpa [hstep, callerHappening_of_none hstep] using Moves.none
      · simpa [hstep] using Moves.caller hc hstep
  | worker i =>
    simp only [step, happening]
    rcases hw : s.workers[i]? with - | w
    · exact .none
    · rcases hstep : workerStep job i w s.core with - | ⟨w', core'⟩
      · simpa [hstep, workerHappening_of_none hstep] using Moves.none
      · simpa [hstep] using Moves.worker hw hstep

/-- What the steps of a schedule do. -/
def history (job : Job σ) (s : System σ) : List Actor → List Happening
  | [] => []
  | actor :: rest => s.happening job actor ++ (s.step job actor).history job rest

/-- What holds at the start and is kept by every step, in view of what happens, holds after every
schedule. -/
theorem run_induction {job : Job σ} {P : System σ → List Happening → Prop}
    (hstep : ∀ {s h e s'}, s.Moves job e s' → P s h → P s' (h ++ e)) {s : System σ}
    {h : List Happening} (hs : P s h) (schedule : List Actor) :
    P (s.run job schedule) (h ++ s.history job schedule) := by
  induction schedule generalizing s h with
  | nil =>
    rw [history, List.append_nil]
    exact hs
  | cons a rest ih =>
    rw [history, ← List.append_assoc]
    exact ih (hstep (moves_step job s a) hs)

end System

end FilteredChunks.Pool
