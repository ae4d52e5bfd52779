import FilteredChunks.Queue.WorkQueue
import Mathlib.Tactic.Common

/-!
# A queue is first in, first out

Every operation on a queue is one step under its lock, so the operations of any number of producers
and consumers come in some order: a history.  `perform` says what one operation does, `log` lists what
the operations of a history gave back.  `perform_effect` is the step lemma; `isFifo` is the main
statement: after every history the items delivered and those still waiting are the items accepted, in
their order, and what an operation gives back is told by whether the queue is closed and empty.
-/

namespace FilteredChunks.WorkQueue

variable {α : Type}

/-- What is done to a queue while its lock is held. -/
inductive Operation (α : Type)
  | enqueue (entry : WorkItem α)
  /-- Takes an entry, going to sleep where there is none yet. -/
  | dequeue
  /-- Takes an entry if there is one. -/
  | tryDequeue

/-- What an operation gives back. -/
inductive Answer (α : Type)
  | entered (answer : Acceptance α)
  | delivered (entry : WorkItem α)
  /-- `tryDequeue` found nothing to take yet. -/
  | nothing
  /-- `dequeue` found nothing to take yet and has not returned. -/
  | asleep

/-- The operations of all participants, with who does them, in the order in which they get the
lock. -/
abbrev History (α : Type) := List (Nat × Operation α)

/-- An operation that was done. -/
structure Event (α : Type) where
  participant : Nat
  operation : Operation α
  answer : Answer α

/-- One operation. -/
def perform (q : WorkQueue α) : Operation α → Answer α × WorkQueue α
  | .enqueue entry => (.entered (q.enqueue entry).1, (q.enqueue entry).2)
  | .dequeue =>
    match q.take? with
    | some (entry, q) => (.delivered entry, q)
    | none => (.asleep, q)
  | .tryDequeue =>
    match q.take? with
    | some (entry, q) => (.delivered entry, q)
    | none => (.nothing, q)

/-- The queue after a history. -/
def after (q : WorkQueue α) (h : History α) : WorkQueue α := h.foldl (fun q x => (q.perform x.2).2) q

/-- What the operations of a history give back. -/
def log (q : WorkQueue α) : History α → List (Event α)
  | [] => []
  | (who, op) :: rest => ⟨who, op, (q.perform op).1⟩ :: (q.perform op).2.log rest

/-- The item that an event put into the queue. -/
def Event.accepted? : Event α → Option α
  | ⟨_, .enqueue (.item value), .entered .queued⟩ => some value
  | _ => none

/-- The item that an event took out of the queue. -/
def Event.delivered? : Event α → Option α
  | ⟨_, _, .delivered (.item value)⟩ => some value
  | _ => none

/-- The items whose entry was answered with `queued`, in the order of their acceptance. -/
def accepted (events : List (Event α)) : List α := events.filterMap Event.accepted?

/-- The items delivered, in the order of their delivery. -/
def delivered (events : List (Event α)) : List α := events.filterMap Event.delivered?

/-- The operation asks for an entry. -/
def Operation.IsTaking (op : Operation α) : Prop := op = .dequeue ∨ op = .tryDequeue

section

variable (q : WorkQueue α) (who : Nat) (op : Operation α) (h : History α)

@[simp]
theorem after_append (g : History α) : q.after (g ++ h) = (q.after g).after h := List.foldl_append

theorem after_cons : q.after ((who, op) :: h) = (q.perform op).2.after h := rfl

theorem log_cons : q.log ((who, op) :: h) = ⟨who, op, (q.perform op).1⟩ :: (q.perform op).2.log h :=
  rfl

@[simp]
theorem log_append (g : History α) : q.log (g ++ h) = q.log g ++ (q.after g).log h := by
  induction g generalizing q with
  | nil => rfl
  | cons x g ih =>
    simp only [List.cons_append, log, ih]
    rfl

theorem accepted_cons (e : Event α) (events : List (Event α)) :
    accepted (e :: events) = e.accepted?.toList ++ accepted events := by
  rw [accepted, List.filterMap_cons]
  cases e.accepted? <;> rfl

theorem delivered_cons (e : Event α) (events : List (Event α)) :
    delivered (e :: events) = e.delivered?.toList ++ delivered events := by
  rw [delivered, List.filterMap_cons]
  cases e.delivered? <;> rfl

end

/-! ### One operation -/

/-- What an operation does: the items that it lets go and those that stay are those of before, with the
one that it enters behind them; it counts what it enters; and only the end of the stream closes the
queue, for good. -/
structure Effect (q : WorkQueue α) (event : Event α) (q' : WorkQueue α) : Prop where
  items : event.delivered?.toList ++ q'.items = q.items ++ event.accepted?.toList
  lifetime : q'.lifetime = q.lifetime + event.accepted?.toList.length
  closed : q'.closed = true ↔ q.closed = true ∨ event.operation = .enqueue .endOfStream

theorem take?_of_items {q : WorkQueue α} {value : α} {items : List α} (h : q.items = value :: items) :
    ∃ q', q.take? = some (.item value, q') ∧ q'.items = items ∧ q'.lifetime = q.lifetime := by
  simp only [take?]
  split
  · next front hfront =>
    simp only [WorkQueue.items, hfront, List.cons_append, List.cons.injEq] at h
    obtain ⟨rfl, rfl⟩ := h
    exact ⟨_, rfl, rfl, rfl⟩
  · next hfront =>
    simp only [WorkQueue.items, hfront, List.nil_append] at h
    split
    · next hback =>
      rw [hback, List.cons.injEq] at h
      obtain ⟨rfl, rfl⟩ := h
      exact ⟨_, rfl, by simp [WorkQueue.items], rfl⟩
    · next hback =>
      rw [hback] at h
      cases h

theorem take?_of_ended {q : WorkQueue α} (hitems : q.items = []) (hclosed : q.closed = true) :
    q.take? = some (.endOfStream, q) := by
  rcases htake : q.take? with - | ⟨entry, q'⟩
  · rw [take?_eq_none_iff.1 htake |>.2] at hclosed
    cases hclosed
  · cases entry with
    | item value =>
      have := items_of_take? htake
      rw [hitems] at this
      cases this
    | endOfStream => rw [eq_of_take?_endOfStream htake]

theorem effect_of_take? {q q' : WorkQueue α} {who : Nat} {op : Operation α} {entry : WorkItem α}
    (hop : op.IsTaking) (h : q.take? = some (entry, q')) :
    Effect q ⟨who, op, .delivered entry⟩ q' := by
  have haccepted : (⟨who, op, .delivered entry⟩ : Event α).accepted? = none := by
    rcases hop with rfl | rfl <;> rfl
  have hclosing : op ≠ .enqueue .endOfStream := by
    rcases hop with rfl | rfl <;> exact nofun
  have hclosed := closed_of_take? h
  refine ⟨?_, ?_, by simp [hclosed, hclosing]⟩
  all_goals rw [haccepted]
  · cases entry with
    | item value => simp [Event.delivered?, items_of_take? h]
    | endOfStream => simp [Event.delivered?, eq_of_take?_endOfStream h]
  · cases entry with
    | item value =>
      obtain ⟨q₁, htake, -, hlifetime⟩ := take?_of_items (items_of_take? h)
      rw [h] at htake
      cases htake
      exact hlifetime
    | endOfStream => rw [eq_of_take?_endOfStream h]; rfl

/-- **Every operation has the effect that its answer tells.** -/
theorem perform_effect (q : WorkQueue α) (who : Nat) (op : Operation α) :
    Effect q ⟨who, op, (q.perform op).1⟩ (q.perform op).2 := by
  cases op with
  | enqueue entry =>
    cases entry with
    | endOfStream => exact ⟨by simp [perform, enqueue, Event.accepted?, Event.delivered?, items], rfl,
        by simp [perform, enqueue]⟩
    | item value =>
      cases hclosed : q.closed with
      | true =>
        have henqueue : q.enqueue (.item value) = (.rejected value, q) := by simp [enqueue, hclosed]
        refine ⟨?_, ?_, by simp [perform, henqueue]⟩
        · simp [perform, henqueue, Event.accepted?, Event.delivered?]
        · simp [perform, henqueue, Event.accepted?]
      | false =>
        have hanswer : (q.enqueue (.item value)).1 = .queued := by simp [enqueue, hclosed]
        refine ⟨?_, ?_, by simp [perform, enqueue, hclosed]⟩
        · simp [perform, hanswer, items_enqueue hclosed, Event.accepted?, Event.delivered?]
        · simp [perform, hanswer, Event.accepted?]
          simp [enqueue, hclosed]
  | dequeue =>
    rcases htake : q.take? with - | ⟨entry, q'⟩
    · simp only [perform, htake]
      exact ⟨by simp [Event.accepted?, Event.delivered?], rfl, by simp⟩
    · simp only [perform, htake]
      exact effect_of_take? (.inl rfl) htake
  | tryDequeue =>
    rcases htake : q.take? with - | ⟨entry, q'⟩
    · simp only [perform, htake]
      exact ⟨by simp [Event.accepted?, Event.delivered?], rfl, by simp⟩
    · simp only [perform, htake]
      exact effect_of_take? (.inr rfl) htake

/-! ### Histories -/

/-- By induction on the history, each operation having its effect. -/
theorem delivered_append_items (q : WorkQueue α) (h : History α) :
    delivered (q.log h) ++ (q.after h).items = q.items ++ accepted (q.log h) := by
  induction h generalizing q with
  | nil => simp [log, delivered, accepted, after]
  | cons x rest ih =>
    obtain ⟨who, op⟩ := x
    have heffect := (perform_effect q who op).items
    rw [log_cons, after_cons, delivered_cons, accepted_cons, List.append_assoc, ih,
      ← List.append_assoc, heffect, List.append_assoc]

theorem lifetime_after (q : WorkQueue α) (h : History α) :
    (q.after h).lifetime = q.lifetime + (accepted (q.log h)).length := by
  induction h generalizing q with
  | nil => rfl
  | cons x rest ih =>
    obtain ⟨who, op⟩ := x
    have heffect := (perform_effect q who op).lifetime
    rw [log_cons, after_cons, accepted_cons, ih, heffect, List.length_append, Nat.add_assoc]

theorem closed_after (q : WorkQueue α) (h : History α) :
    (q.after h).closed = true ↔ q.closed = true ∨ ∃ who, (who, .enqueue .endOfStream) ∈ h := by
  induction h generalizing q with
  | nil => simp [after]
  | cons x rest ih =>
    obtain ⟨who, op⟩ := x
    rw [after_cons, ih, (perform_effect q who op).closed, or_assoc]
    refine or_congr_right ?_
    simp only [List.mem_cons, Prod.mk.injEq, exists_or]
    refine or_congr_left ⟨fun h => ⟨who, rfl, h.symm⟩, fun ⟨_, _, h⟩ => h.symm⟩

/-- A queue that has told its end tells it to every taker from then on, whatever is done to it. -/
theorem ended_after {q : WorkQueue α} (hitems : q.items = []) (hclosed : q.closed = true)
    (h : History α) : (q.after h).items = [] ∧ ∀ event ∈ q.log h, event.operation.IsTaking →
      event.answer = .delivered .endOfStream := by
  induction h generalizing q with
  | nil => exact ⟨hitems, by simp [log]⟩
  | cons x rest ih =>
    obtain ⟨who, op⟩ := x
    have htake := take?_of_ended hitems hclosed
    have hsame : (q.perform op).2.items = [] ∧ (q.perform op).2.closed = true := by
      cases op with
      | enqueue entry => cases entry <;> simp_all [perform, enqueue, items]
      | dequeue => simp [perform, htake, hitems, hclosed]
      | tryDequeue => simp [perform, htake, hitems, hclosed]
    obtain ⟨hlast, hevents⟩ := ih hsame.1 hsame.2
    refine ⟨hlast, fun event hmem htaking => ?_⟩
    rcases List.mem_cons.1 hmem with rfl | hmem
    · rcases htaking with hop | hop <;> simp only at hop <;> subst hop <;> simp [perform, htake]
    · exact hevents event hmem htaking

/-! ### Main statement -/

/-- What holds of a queue after a history, whatever comes next. -/
structure IsFifo (h : History α) : Prop where
  /-- Nothing is lost, doubled or overtaken. -/
  order : delivered (empty.log h) ++ (empty.after h).items = accepted (empty.log h)
  /-- The queue is closed once the end of the stream was entered. -/
  closed : (empty.after h).closed = true ↔ ∃ who, (who, .enqueue .endOfStream) ∈ h
  closed_later : (empty.after h).closed = true → ∀ later : History α,
    (empty.after (h ++ later)).closed = true
  /-- An item is handed back just if the queue was closed before. -/
  entered : ∀ value, ((empty.after h).perform (.enqueue (.item value))).1 =
    .entered (if (empty.after h).closed then .rejected value else .queued)
  /-- The first item waiting is the next to be delivered, to either kind of taker. -/
  first : ∀ op, op.IsTaking → ∀ value, ((empty.after h).perform op).1 = .delivered (.item value) ↔
    (empty.after h).items.head? = some value
  /-- The end is told when nothing waits in a closed queue. -/
  ended : ∀ op, op.IsTaking → (((empty.after h).perform op).1 = .delivered .endOfStream ↔
    (empty.after h).closed = true ∧ (empty.after h).items = [])
  /-- Once the end could be told, every later taker is told of it. -/
  ended_later : (empty.after h).closed = true → (empty.after h).items = [] → ∀ later : History α,
    ∀ event ∈ (empty.after h).log later, event.operation.IsTaking →
      event.answer = .delivered .endOfStream
  nothing : ((empty.after h).perform .tryDequeue).1 = .nothing ↔
    (empty.after h).closed = false ∧ (empty.after h).items = []
  asleep : ((empty.after h).perform .dequeue).1 = .asleep ↔
    (empty.after h).closed = false ∧ (empty.after h).items = []
  lifetime : (empty.after h).lifetime =
    (delivered (empty.log h)).length + (empty.after h).length
  lifetime_le : ∀ later : History α, (empty.after h).lifetime ≤ (empty.after (h ++ later)).lifetime

theorem perform_taking {q : WorkQueue α} {op : Operation α} (hop : op.IsTaking) :
    (∀ value, (q.perform op).1 = .delivered (.item value) ↔ q.items.head? = some value) ∧
    ((q.perform op).1 = .delivered .endOfStream ↔ q.closed = true ∧ q.items = []) ∧
    (((q.perform op).1 = .nothing ∨ (q.perform op).1 = .asleep) ↔
      q.closed = false ∧ q.items = []) := by
  have hanswer : (q.perform op).1 = match q.take? with
      | some (entry, _) => .delivered entry
      | none => (q.perform op).1 := by
    rcases hop with rfl | rfl <;> simp only [perform] <;> split <;> rfl
  rcases hitems : q.items with - | ⟨first, items⟩
  · cases hclosed : q.closed with
    | true =>
      rw [take?_of_ended hitems hclosed] at hanswer
      simp [hanswer]
    | false =>
      have htake := take?_eq_none_iff.2 ⟨hitems, hclosed⟩
      rcases hop with rfl | rfl <;> simp [perform, htake]
  · obtain ⟨q', htake, -, -⟩ := take?_of_items hitems
    rw [htake] at hanswer
    simp [hanswer]

/-- **A queue is a closable first-in-first-out queue**, for every order in which the operations of any
number of producers and consumers come. -/
theorem isFifo (h : History α) : IsFifo h := by
  have horder := delivered_append_items empty h
  have hlifetime := lifetime_after empty h
  have hclosed := closed_after empty h
  have htaking (op : Operation α) (hop : op.IsTaking) := perform_taking (q := empty.after h) hop
  refine {
    order := horder
    closed := hclosed.trans (by simp [empty])
    closed_later := fun hc later => ?_
    entered := fun value => ?_
    first := fun op hop => (htaking op hop).1
    ended := fun op hop => (htaking op hop).2.1
    ended_later := fun hc hi later => (ended_after hi hc later).2
    nothing := ?_
    asleep := ?_
    lifetime := ?_
    lifetime_le := fun later => ?_ }
  · rw [after_append]
    exact (closed_after _ later).2 (.inl hc)
  · cases hc : (empty.after h).closed <;> simp [perform, enqueue, hc]
  · rw [← (htaking _ (.inr rfl)).2.2]
    refine ⟨.inl, fun hor => hor.resolve_right ?_⟩
    simp only [perform]
    split <;> (intro h; cases h)
  · rw [← (htaking _ (.inl rfl)).2.2]
    refine ⟨.inr, fun hor => hor.resolve_left ?_⟩
    simp only [perform]
    split <;> (intro h; cases h)
  · have hlength := congrArg List.length horder
    rw [hlifetime, length_eq]
    simp only [List.length_append, empty, items, List.length_nil, List.reverse_nil] at hlength ⊢
    omega
  · rw [after_append, lifetime_after (empty.after h)]
    exact Nat.le_add_right _ _

end FilteredChunks.WorkQueue
