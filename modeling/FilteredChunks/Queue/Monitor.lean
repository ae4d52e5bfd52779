import FilteredChunks.Queue.WorkQueue

/-!
# Producers and consumers at a queue

The queue is guarded by a lock and a condition.  A producer changes the queue under the lock and,
after giving the lock back, notifies one waiting consumer of an item or all of them of the end.  A
consumer that finds nothing to take goes to sleep, giving the lock back at once; it may also wake up
without being notified.  A consumer may also just look for an item and go on without one.

Every action is one step; an action that is not possible changes nothing.  `run` takes the steps of a
schedule, so a statement about all schedules is one about all interleavings.
-/

namespace FilteredChunks

/-- Whom a producer has to notify. -/
inductive Notice
  | one
  | all
  deriving DecidableEq

/-- A producer: the notice it owes, and what it is going to enter. -/
structure Producer (α : Type) where
  owed : Option Notice
  entries : List (WorkItem α)

/-- Where a consumer is. -/
inductive Consumer
  /-- Not asking for an item. -/
  | away
  /-- Asking, and about to look at the queue. -/
  | awake
  /-- Asking, and asleep. -/
  | blocked
  deriving DecidableEq

/-- A queue with its producers and consumers, what they entered with the answers, and what was
delivered to whom, both latest first. -/
structure Monitor (α : Type) where
  queue : WorkQueue α
  producers : List (Producer α)
  consumers : List Consumer
  answers : List (WorkItem α × Acceptance α)
  delivered : List (Nat × WorkItem α)

namespace Monitor

variable {α : Type}

/-- One step of one participant. -/
inductive Action
  /-- A producer changes the queue. -/
  | enter (producer : Nat)
  /-- A producer sends its notice; the choice among sleepers falls on `chosen` if it sleeps. -/
  | notify (producer chosen : Nat)
  /-- A consumer starts asking. -/
  | ask (consumer : Nat)
  /-- A consumer that is awake takes an item or goes to sleep. -/
  | look (consumer : Nat)
  /-- A sleeper wakes up by itself. -/
  | wake (consumer : Nat)
  /-- A consumer that does not ask takes what there is, if there is anything. -/
  | poll (consumer : Nat)
  deriving DecidableEq

/-- Producers with their entries and consumers that do not ask yet. -/
def start (entries : List (List (WorkItem α))) (consumers : Nat) : Monitor α where
  queue := .empty
  producers := entries.map fun e => ⟨none, e⟩
  consumers := List.replicate consumers .away
  answers := []
  delivered := []

/-- Which sleeper a notice for one wakes. -/
def sleeper? (consumers : List Consumer) (chosen : Nat) : Option Nat :=
  if consumers[chosen]? = some .blocked then some chosen
  else consumers.findIdx? (· == .blocked)

/-- The consumers after a notice. -/
def notified (notice : Notice) (chosen : Nat) (consumers : List Consumer) : List Consumer :=
  match notice with
  | .all => consumers.map fun c => if c = .blocked then .awake else c
  | .one =>
    match sleeper? consumers chosen with
    | some index => consumers.set index .awake
    | none => consumers

/-- The notice an answer calls for. -/
def noticeOf : Acceptance α → Option Notice
  | .queued => some .one
  | .closed => some .all
  | .rejected _ => none

/-- A producer that owes nothing enters its next entry. -/
def enter (m : Monitor α) (producer : Nat) : Monitor α :=
  match m.producers[producer]? with
  | some ⟨none, entry :: entries⟩ =>
    let (answer, queue) := m.queue.enqueue entry
    { m with
      queue := queue
      producers := m.producers.set producer ⟨noticeOf answer, entries⟩
      answers := (entry, answer) :: m.answers }
  | _ => m

/-- A producer sends the notice it owes. -/
def notify (m : Monitor α) (producer chosen : Nat) : Monitor α :=
  match m.producers[producer]? with
  | some ⟨some notice, entries⟩ =>
    { m with
      producers := m.producers.set producer ⟨none, entries⟩
      consumers := notified notice chosen m.consumers }
  | _ => m

/-- A consumer that is awake looks at the queue. -/
def look (m : Monitor α) (consumer : Nat) : Monitor α :=
  if m.consumers[consumer]? = some .awake then
    match m.queue.take? with
    | some (entry, queue) =>
      { m with
        queue := queue
        consumers := m.consumers.set consumer .away
        delivered := (consumer, entry) :: m.delivered }
    | none => { m with consumers := m.consumers.set consumer .blocked }
  else m

/-- A consumer that is away takes what there is without waiting for more. -/
def poll (m : Monitor α) (consumer : Nat) : Monitor α :=
  if m.consumers[consumer]? = some .away then
    match m.queue.take? with
    | some (entry, queue) =>
      { m with queue := queue, delivered := (consumer, entry) :: m.delivered }
    | none => m
  else m

/-- A consumer goes from one place to another, if it is there. -/
def move (m : Monitor α) (consumer : Nat) (old new : Consumer) : Monitor α :=
  if m.consumers[consumer]? = some old then
    { m with consumers := m.consumers.set consumer new }
  else m

def step (m : Monitor α) : Action → Monitor α
  | .enter producer => m.enter producer
  | .notify producer chosen => m.notify producer chosen
  | .ask consumer => m.move consumer .away .awake
  | .look consumer => m.look consumer
  | .wake consumer => m.move consumer .blocked .awake
  | .poll consumer => m.poll consumer

/-- Takes the steps of a schedule. -/
def run (m : Monitor α) (schedule : List Action) : Monitor α := schedule.foldl step m

/-- How many entries were taken in. -/
def queuedCount (m : Monitor α) : Nat := m.answers.countP fun a => a.2 matches .queued

/-- The items that a consumer got, in the order of their delivery. -/
def itemsOf (m : Monitor α) (consumer : Nat) : List α :=
  m.delivered.reverse.filterMap fun
    | (c, .item x) => if c = consumer then some x else none
    | _ => none

/-- The schedule in which the producers enter everything one after the other, and then the consumers
ask in turn, `rounds` times. -/
def sequential (entries : List (List (WorkItem α))) (consumers rounds : Nat) : List Action :=
  (entries.zipIdx.flatMap fun (es, p) => es.flatMap fun _ => [.enter p, .notify p 0]) ++
    (List.range rounds).flatMap fun _ =>
      (List.range consumers).flatMap fun c => [.ask c, .look c]

/-- What that schedule leads to when it goes on until every consumer has asked once more than there
are entries for it. -/
def runSequential (entries : List (List (WorkItem α))) (consumers : Nat) : Monitor α :=
  (start entries consumers).run (sequential entries consumers (entries.flatten.length / consumers + 1))

end Monitor

end FilteredChunks
