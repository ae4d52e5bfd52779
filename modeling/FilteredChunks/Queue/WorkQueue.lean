import FilteredChunks.Metrics

/-!
# Work queues

A queue hands out items in the order in which it accepted them.  Closing it is for good: items come
back rejected, and once the queue is empty every taker is told that the stream has ended.

The items are kept in two lists, so that both ends are at hand; `items` is what they stand for, and
`items_enqueue`, `items_of_take?` say what entering and taking do to it.
-/

namespace FilteredChunks

/-- What goes through a queue. -/
inductive WorkItem (α : Type)
  | item (value : α)
  /-- The producers are done; closes the queue. -/
  | endOfStream
  deriving DecidableEq

/-- The answer to an entry. -/
inductive Acceptance (α : Type)
  | queued
  | closed
  /-- The queue was closed before; the item is handed back. -/
  | rejected (value : α)
  deriving DecidableEq

/-- The items waiting and the number of items ever accepted. -/
structure WorkQueue (α : Type) where
  /-- The items that go first, in order. -/
  front : List α
  /-- The items that go after those, last to first. -/
  back : List α
  /-- Number of items waiting. -/
  length : Nat
  closed : Bool
  lifetime : Nat
  length_lists : length = front.length + back.length

namespace WorkQueue

variable {α : Type}

def empty : WorkQueue α := ⟨[], [], 0, false, 0, rfl⟩

/-- The items waiting, first to last. -/
def items (q : WorkQueue α) : List α := q.front ++ q.back.reverse

def isEmpty (q : WorkQueue α) : Bool := q.front.isEmpty && q.back.isEmpty

/-- Appends an item or closes the queue. -/
def enqueue (q : WorkQueue α) (entry : WorkItem α) : Acceptance α × WorkQueue α :=
  match entry with
  | .endOfStream => (.closed, { q with closed := true })
  | .item value =>
    if q.closed then (.rejected value, q)
    else
      (.queued, ⟨q.front, value :: q.back, q.length + 1, false, q.lifetime + 1,
        congrArg (· + 1) q.length_lists⟩)

/-- Takes the first item, or the end of the stream; from a queue that is empty and open nothing can
be taken yet. -/
def take? (q : WorkQueue α) : Option (WorkItem α × WorkQueue α) :=
  match h : q.front with
  | value :: front =>
    some (.item value, ⟨front, q.back, q.length - 1, q.closed, q.lifetime, by
      simp only [q.length_lists, h, List.length_cons]
      omega⟩)
  | [] =>
    match h' : q.back.reverse with
    | value :: front =>
      some (.item value, ⟨front, [], q.length - 1, q.closed, q.lifetime, by
        have := congrArg List.length h'
        simp_all [q.length_lists]⟩)
    | [] => if q.closed then some (.endOfStream, q) else none

/-- What is recorded when an entry has been answered and `q` is the queue after it. -/
def enqueueMetrics (answer : Acceptance α) (q : WorkQueue α) : List Metrics.Update :=
  match answer with
  | .queued => [.count Metrics.queueEnqueued 1, .set Metrics.queueDepth q.length]
  | .closed => [.count Metrics.queueClosed 1]
  | .rejected _ => []

/-! ### Lemmas -/

theorem length_eq (q : WorkQueue α) : q.length = q.items.length := by simp [q.length_lists, items]

theorem isEmpty_iff {q : WorkQueue α} : q.isEmpty = true ↔ q.items = [] := by
  simp [isEmpty, items]

/-- An open queue puts an item last. -/
theorem items_enqueue {q : WorkQueue α} {value : α} (h : q.closed = false) :
    (q.enqueue (.item value)).2.items = q.items ++ [value] := by
  simp [enqueue, items, h]

theorem take?_eq_none_iff {q : WorkQueue α} :
    q.take? = none ↔ q.items = [] ∧ q.closed = false := by
  simp only [take?, items]
  split
  · next heq => simp [heq]
  · next heq =>
    split
    · next heq' => simp [heq, heq']
    · next heq' => simp [heq, heq']

/-- An item that is taken was the first. -/
theorem items_of_take? {q q' : WorkQueue α} {value : α} (h : q.take? = some (.item value, q')) :
    q.items = value :: q'.items := by
  simp only [take?] at h
  split at h
  · next heq =>
    cases h
    simp [items, heq]
  · next heq =>
    split at h
    · next heq' =>
      cases h
      simp [items, heq, heq']
    · split at h <;> cases h

/-- Taking an item makes the queue shorter. -/
theorem length_of_take? {q q' : WorkQueue α} {value : α} (h : q.take? = some (.item value, q')) :
    q'.length + 1 = q.length := by
  simp [length_eq, items_of_take? h]

/-- The end of the stream leaves the queue as it was. -/
theorem eq_of_take?_endOfStream {q q' : WorkQueue α} (h : q.take? = some (.endOfStream, q')) :
    q' = q := by
  simp only [take?] at h
  split at h
  · cases h
  · split at h
    · cases h
    · split at h <;> cases h
      rfl

/-- The end of the stream is told by a queue that is empty and closed. -/
theorem ended_of_take? {q q' : WorkQueue α} (h : q.take? = some (.endOfStream, q')) :
    q.items = [] ∧ q.closed = true := by
  simp only [take?, items] at h ⊢
  split at h
  · cases h
  · next heq =>
    split at h
    · cases h
    · next heq' =>
      split at h
      · next hclosed => exact ⟨by simp [heq, heq'], hclosed⟩
      · cases h

/-- Taking does not open or close a queue. -/
theorem closed_of_take? {q q' : WorkQueue α} {entry : WorkItem α}
    (h : q.take? = some (entry, q')) : q'.closed = q.closed := by
  simp only [take?] at h
  split at h
  · cases h
    rfl
  · split at h
    · cases h
      rfl
    · split at h <;> cases h
      rfl

end WorkQueue

end FilteredChunks
