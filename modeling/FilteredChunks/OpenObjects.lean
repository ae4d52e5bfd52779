import FilteredChunks.FilterPipeline

/-!
# Open objects

What a registry learns about the objects that are open when a filter is to go: the pipelines of open
datasets and groups, and the open files.  Any of it may fail.
-/

namespace FilteredChunks

inductive FileIntent
  | readOnly
  | readWrite
  deriving DecidableEq

/-- A group of processes that have files open together; `barrier` waits for all of them. -/
structure Communicator where
  barrier : Except FilterError Unit

/-- An open file. -/
structure OpenFile where
  intent : Except FilterError FileIntent
  /-- Opened together by a group of processes. -/
  collective : Bool
  /-- The group, unless it is null. -/
  communicator : Except FilterError (Option Communicator)
  flush : Except FilterError Unit

/-- Everything that is open, in the order in which it is visited.  A failure among the pipelines ends
the visit there. -/
structure OpenObjects where
  datasets : List (Except FilterError FilterPipeline)
  groups : List (Except FilterError FilterPipeline)
  files : List OpenFile

namespace OpenObjects

/-- Nothing is open. -/
def empty : OpenObjects := ⟨[], [], []⟩

/-- The pipelines of one kind of object. -/
def pipelines (objects : OpenObjects) : ObjectKind → List (Except FilterError FilterPipeline)
  | .dataset => objects.datasets
  | .group => objects.groups

/-- What open objects are asked for; they are numbered in visiting order. -/
inductive Event
  /-- A pipeline was looked at, and whether the visit stopped there. -/
  | visited (kind : ObjectKind) (number : Nat) (stopped : Bool)
  | intent (number : Nat)
  | communicator (number : Nat)
  | barrier (number : Nat)
  | flush (number : Nat)
  deriving DecidableEq

/-- An answer and what was asked for to get it. -/
abbrev Asked (α : Type) := Except FilterError α × List Event

/-- Puts events before those of an answer. -/
def Asked.after {α : Type} (events : List Event) (asked : Asked α) : Asked α :=
  (asked.1, events ++ asked.2)

/-- Whether one of the pipelines contains a filter, visiting no more of them than needed. -/
def uses (kind : ObjectKind) (id : FilterId) :
    List (Except FilterError FilterPipeline × Nat) → Asked Bool
  | [] => (.ok false, [])
  | (.error error, _) :: _ => (.error error, [])
  | (.ok pipeline, number) :: rest =>
    if pipeline.contains id then (.ok true, [.visited kind number true])
    else (uses kind id rest).after [.visited kind number false]

/-- Waits for the group of a file. -/
def synchronise (file : OpenFile) (number : Nat) : Asked Unit :=
  match file.communicator with
  | .error error => (.error (error.within .gettingCommunicator), [.communicator number])
  | .ok none => (.ok (), [.communicator number])
  | .ok (some communicator) =>
    (communicator.barrier.mapError fun error => error.within .issuingBarrier,
      [.communicator number, .barrier number])

/-- Flushes the writable files in order.  With `check`, the group of the first one that was opened
collectively is waited for before it is flushed; `issued` says that this has happened. -/
def flushFiles (check : Bool) : (issued : Bool) → List (OpenFile × Nat) → Asked Unit
  | _, [] => (.ok (), [])
  | issued, (file, number) :: rest =>
    match file.intent with
    | .error error => (.error error, [.intent number])
    | .ok .readOnly => (flushFiles check issued rest).after [.intent number]
    | .ok .readWrite =>
      let needed := file.collective && check && !issued
      let (synchronised, events) := if needed then synchronise file number else (.ok (), [])
      let events := .intent number :: events
      match synchronised with
      | .error error => (.error error, events)
      | .ok () =>
        let events := events ++ [.flush number]
        match file.flush with
        | .error error => (.error (error.within .flushingFiles), events)
        | .ok () => (flushFiles check (issued || needed) rest).after events

end OpenObjects

end FilteredChunks
