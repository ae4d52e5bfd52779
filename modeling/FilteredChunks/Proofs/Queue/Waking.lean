import FilteredChunks.Proofs.Queue.Fifo
import FilteredChunks.Queue.Monitor
import FilteredChunks.Total

/-!
# Nobody sleeps beside a queue with something to take

A producer sends its notice after it has given the lock back, so that a notice may find nobody asleep,
or wake a consumer whose item another one takes first.  The invariant `Covered` counts: while a consumer
sleeps, every item waiting has a notice under way or a consumer awake that is still to look, and a closed
queue has a notice to all under way.  `covered_run` is the invariant of all schedules; at rest it leaves
nothing to take for a sleeper (`nothing_to_take_of_blocked`).

`Moves` is the inversion of a step.  With it the queue of a monitor is found to be the queue after some
history (`exists_history`), so that what is delivered by any interleaving is what was accepted, in its
order (`delivered_append_queued`).
-/

namespace FilteredChunks.Monitor

open WorkQueue (History)

variable {α : Type}

/-! ### What a step can do -/

/-- The ways in which a step changes a monitor. -/
inductive Moves (m : Monitor α) : Monitor α → Prop
  | none : Moves m m
  | entered {i : Nat} {entry : WorkItem α} {entries : List (WorkItem α)}
      (hp : m.producers[i]? = some ⟨.none, entry :: entries⟩) :
      Moves m { m with
        queue := (m.queue.enqueue entry).2
        producers := m.producers.set i ⟨noticeOf (m.queue.enqueue entry).1, entries⟩
        answers := (entry, (m.queue.enqueue entry).1) :: m.answers }
  | told {i : Nat} {notice : Notice} {entries : List (WorkItem α)} (chosen : Nat)
      (hp : m.producers[i]? = some ⟨some notice, entries⟩) :
      Moves m { m with
        producers := m.producers.set i ⟨.none, entries⟩
        consumers := notified notice chosen m.consumers }
  /-- A consumer starts asking, or wakes up by itself. -/
  | woke {i : Nat} {old : Consumer} (hc : m.consumers[i]? = some old) (hold : old ≠ .awake) :
      Moves m { m with consumers := m.consumers.set i .awake }
  /-- A consumer takes an entry, asking for it or not. -/
  | took {i : Nat} {old : Consumer} {entry : WorkItem α} {queue : WorkQueue α}
      (hc : m.consumers[i]? = some old) (hold : old ≠ .blocked)
      (ht : m.queue.take? = some (entry, queue)) :
      Moves m { m with
        queue := queue
        consumers := m.consumers.set i .away
        delivered := (i, entry) :: m.delivered }
  | slept {i : Nat} (hc : m.consumers[i]? = some .awake) (ht : m.queue.take? = .none) :
      Moves m { m with consumers := m.consumers.set i .blocked }

theorem moves_move (m : Monitor α) (consumer : Nat) {old : Consumer} (hold : old ≠ .awake) :
    m.Moves (m.move consumer old .awake) := by
  unfold move
  split
  · next hc => exact .woke hc hold
  · exact .none

/-- **Inversion of a step.** -/
theorem moves_step (m : Monitor α) (action : Action) : m.Moves (m.step action) := by
  cases action with
  | enter i =>
    simp only [step, enter]
    split
    · next hp => exact .entered hp
    · exact .none
  | notify i chosen =>
    simp only [step, notify]
    split
    · next hp => exact .told chosen hp
    · exact .none
  | ask i => exact m.moves_move i (by decide)
  | wake i => exact m.moves_move i (by decide)
  | look i =>
    simp only [step, look]
    split
    · next hc =>
      split
      · next ht => exact .took hc (by decide) ht
      · next ht => exact .slept hc ht
    · exact .none
  | poll i =>
    simp only [step, poll]
    split
    · next hc =>
      split
      · next ht =>
        have hsame : m.consumers.set i .away = m.consumers := by
          obtain ⟨hlt, hget⟩ := List.getElem?_eq_some_iff.1 hc
          rw [← hget, List.set_getElem_self]
        simpa only [hsame] using Moves.took hc (by decide) ht
      · exact .none
    · exact .none

/-- What holds at the start and is kept by every step holds after every schedule. -/
theorem run_induction {P : Monitor α → Prop} (hstep : ∀ {m m'}, m.Moves m' → P m → P m')
    {m : Monitor α} (hm : P m) (schedule : List Action) : P (m.run schedule) := by
  induction schedule generalizing m with
  | nil => exact hm
  | cons action rest ih => exact ih (hstep (moves_step m action) hm)

/-! ### Counting notices and consumers -/

/-- 1 for a consumer at the given place. -/
def isAt (place c : Consumer) : Nat := if c = place then 1 else 0

/-- 1 for a producer that owes a notice of the given kind. -/
def owes (notice : Notice) (p : Producer α) : Nat := if p.owed = some notice then 1 else 0

theorem sleeper?_eq {consumers : List Consumer} (chosen : Nat)
    (h : 0 < total (isAt .blocked) consumers) :
    ∃ i, sleeper? consumers chosen = some i ∧ consumers[i]? = some .blocked := by
  unfold sleeper?
  split
  · next hc => exact ⟨chosen, rfl, hc⟩
  · cases hfind : consumers.findIdx? (· == .blocked) with
    | some i =>
      obtain ⟨hlt, hblocked, -⟩ := List.findIdx?_eq_some_iff_getElem.1 hfind
      exact ⟨i, rfl, List.getElem?_eq_some_iff.2 ⟨hlt, by simpa using hblocked⟩⟩
    | none =>
      rw [List.findIdx?_eq_none_iff] at hfind
      have hnone : total (isAt .blocked) consumers = 0 :=
        total_eq_zero fun c hc => by
          simpa [isAt] using hfind c hc
      omega

theorem awakeness_notified_one {consumers : List Consumer} (chosen : Nat)
    (h : 0 < total (isAt .blocked) consumers) :
    total (isAt .awake) (notified .one chosen consumers) =
      total (isAt .awake) consumers + 1 := by
  obtain ⟨i, hsleeper, hi⟩ := sleeper?_eq chosen h
  have hset := total_set (isAt .awake) .awake hi
  simpa only [notified, hsleeper, isAt, reduceCtorEq, if_true, if_false, Nat.add_zero] using hset

theorem sleep_notified_one_le (chosen : Nat) (consumers : List Consumer) :
    total (isAt .blocked) (notified .one chosen consumers) ≤ total (isAt .blocked) consumers := by
  simp only [notified]
  split
  · next i hsleeper =>
    rcases hi : consumers[i]? with - | c
    · have hsame := List.set_eq_of_length_le (a := Consumer.awake) (List.getElem?_eq_none_iff.1 hi)
      exact Nat.le_of_eq (congrArg (total (isAt .blocked)) hsame)
    · have hset := total_set (isAt .blocked) .awake hi
      have hawake : isAt .blocked .awake = 0 := rfl
      omega
  · exact Nat.le_refl _

theorem sleep_notified_all (chosen : Nat) (consumers : List Consumer) :
    total (isAt .blocked) (notified .all chosen consumers) = 0 := by
  refine total_eq_zero fun c hc => ?_
  obtain ⟨c, -, rfl⟩ := List.mem_map.1 hc
  cases c <;> rfl

/-! ### The invariant -/

/-- While a consumer sleeps, a closed queue has a notice to all under way, and for every item in an open
one there is a notice under way or a consumer awake. -/
structure Covered (m : Monitor α) : Prop where
  closed : 0 < total (isAt .blocked) m.consumers → m.queue.closed = true →
    0 < total (owes .all) m.producers
  items : 0 < total (isAt .blocked) m.consumers → m.queue.closed = false →
    m.queue.length ≤ total (isAt .awake) m.consumers + total (owes .one) m.producers

theorem covered_start (entries : List (List (WorkItem α))) (consumers : Nat) :
    (start entries consumers).Covered :=
  ⟨fun _ h => (nomatch h), fun _ _ => Nat.zero_le _⟩

/-- An item comes with a notice to one, the end with a notice to all. -/
theorem Covered.entered {m : Monitor α} (h : m.Covered) {i : Nat} {entry : WorkItem α}
    {entries : List (WorkItem α)} (hp : m.producers[i]? = some ⟨none, entry :: entries⟩) :
    Covered { m with
      queue := (m.queue.enqueue entry).2
      producers := m.producers.set i ⟨noticeOf (m.queue.enqueue entry).1, entries⟩
      answers := (entry, (m.queue.enqueue entry).1) :: m.answers } := by
  obtain ⟨hclosed, hitems⟩ := h
  have hset (notice : Notice) :=
    total_set (owes notice) ⟨noticeOf (m.queue.enqueue entry).1, entries⟩ hp
  cases entry with
  | endOfStream =>
    have hall := hset .all
    simp only [WorkQueue.enqueue, noticeOf, owes, if_true, reduceCtorEq, if_false] at hall
    refine ⟨fun _ _ => ?_, fun _ h => ?_⟩
    · dsimp only [WorkQueue.enqueue, noticeOf]
      omega
    · cases h
  | item value =>
    cases hc : m.queue.closed with
    | true =>
      -- the item is handed back and nobody is told
      have hall := hset .all
      simp only [WorkQueue.enqueue, hc, if_true, noticeOf, owes, reduceCtorEq, if_false] at hall
      simp only [WorkQueue.enqueue, hc, if_true, noticeOf]
      refine ⟨fun hs _ => ?_, fun _ h => ?_⟩
      · have := hclosed hs hc
        show 0 < total (owes .all) (m.producers.set i ⟨none, entries⟩)
        omega
      · cases hc.symm.trans h
    | false =>
      have hone := hset .one
      simp only [WorkQueue.enqueue, hc, Bool.false_eq_true, if_false, noticeOf, owes, reduceCtorEq,
        if_true] at hone
      simp only [WorkQueue.enqueue, hc, Bool.false_eq_true, if_false, noticeOf]
      refine ⟨fun _ h => ?_, fun hs _ => ?_⟩
      · cases h
      · have := hitems hs hc
        show m.queue.length + 1 ≤ total (isAt .awake) m.consumers +
          total (owes .one) (m.producers.set i ⟨some .one, entries⟩)
        omega

theorem Covered.told {m : Monitor α} (h : m.Covered) {i : Nat} {notice : Notice}
    {entries : List (WorkItem α)} (chosen : Nat)
    (hp : m.producers[i]? = some ⟨some notice, entries⟩) :
    Covered { m with
      producers := m.producers.set i ⟨none, entries⟩
      consumers := notified notice chosen m.consumers } := by
  obtain ⟨hclosed, hitems⟩ := h
  cases notice with
  | all =>
    have hnone := sleep_notified_all chosen m.consumers
    exact ⟨fun hs => absurd hs (by simp [hnone]), fun hs => absurd hs (by simp [hnone])⟩
  | one =>
    have hless := sleep_notified_one_le chosen m.consumers
    have hone := total_set (owes .one) ⟨none, entries⟩ hp
    have hall := total_set (owes .all) ⟨none, entries⟩ hp
    simp only [owes, reduceCtorEq, if_true, if_false, Option.some.injEq] at hone hall
    refine ⟨fun hs hc => ?_, fun hs hc => ?_⟩
    · have := hclosed (Nat.lt_of_lt_of_le hs hless) hc
      show 0 < total (owes .all) (m.producers.set i ⟨none, entries⟩)
      omega
    · have := hitems (Nat.lt_of_lt_of_le hs hless) hc
      have := awakeness_notified_one chosen (Nat.lt_of_lt_of_le hs hless)
      show m.queue.length ≤ total (isAt .awake) (notified .one chosen m.consumers) +
        total (owes .one) (m.producers.set i ⟨none, entries⟩)
      omega

/-- **Every step keeps the invariant.** -/
theorem Covered.moves {m m' : Monitor α} (hm : m.Moves m') (h : m.Covered) : m'.Covered := by
  cases hm with
  | none => exact h
  | entered hp => exact h.entered hp
  | told chosen hp => exact h.told chosen hp
  | @woke i old hc hold =>
    obtain ⟨hclosed, hitems⟩ := h
    have hsleep := total_set (isAt .blocked) .awake hc
    have hawake := total_set (isAt .awake) .awake hc
    simp only [isAt, reduceCtorEq, if_true, if_false, if_neg hold] at hsleep hawake
    refine ⟨fun hs hq => hclosed ?_ hq, fun hs hq => ?_⟩
    · dsimp only at hs
      omega
    · dsimp only at hs ⊢
      have := hitems (by omega) hq
      omega
  | @took i old entry queue hc hold ht =>
    obtain ⟨hclosed, hitems⟩ := h
    have hsleep := total_set (isAt .blocked) .away hc
    have hawake := total_set (isAt .awake) .away hc
    have hone : isAt .awake old ≤ 1 := by unfold isAt; split <;> decide
    simp only [isAt, reduceCtorEq, if_false, if_neg hold, Nat.add_zero] at hsleep hawake hone
    have hsame := WorkQueue.closed_of_take? ht
    refine ⟨fun hs hq => ?_, fun hs hq => ?_⟩
    · dsimp only at hs hq ⊢
      exact hclosed (hsleep ▸ hs) (hsame ▸ hq)
    · dsimp only at hs hq ⊢
      have hbound := hitems (hsleep ▸ hs) (hsame ▸ hq)
      cases entry with
      | item value =>
        have := WorkQueue.length_of_take? ht
        omega
      | endOfStream =>
        have hended := (WorkQueue.ended_of_take? ht).2
        rw [← hsame, hq] at hended
        cases hended
  | @slept i hc ht =>
    -- whoever goes to sleep has found the queue empty and open
    obtain ⟨hnone, hopen⟩ := WorkQueue.take?_eq_none_iff.1 ht
    refine ⟨fun _ hq => (nomatch hopen.symm.trans hq), fun _ _ => ?_⟩
    simp [WorkQueue.length_eq, hnone]

theorem covered_run (entries : List (List (WorkItem α))) (consumers : Nat)
    (schedule : List Action) : ((start entries consumers).run schedule).Covered :=
  run_induction (fun hm h => h.moves hm) (covered_start entries consumers) schedule

/-! ### The history of a run -/

/-- The items taken in, in the order of their acceptance. -/
def acceptedItems (m : Monitor α) : List α :=
  m.answers.reverse.filterMap fun
    | (.item value, .queued) => some value
    | _ => none

/-- The items delivered to anybody, in the order of their delivery. -/
def deliveredItems (m : Monitor α) : List α :=
  m.delivered.reverse.filterMap fun
    | (_, .item value) => some value
    | _ => none

/-- The changes that a monitor made to its queue are those of a history. -/
structure Follows (m : Monitor α) (h : History α) : Prop where
  queue : m.queue = WorkQueue.empty.after h
  accepted : m.acceptedItems = WorkQueue.accepted (WorkQueue.empty.log h)
  delivered : m.deliveredItems = WorkQueue.delivered (WorkQueue.empty.log h)

/-- **Every step makes at most one change to the queue.** -/
theorem Follows.moves {m m' : Monitor α} (hm : m.Moves m') {h : History α} (hf : m.Follows h) :
    ∃ h', m'.Follows h' := by
  obtain ⟨hqueue, haccepted, hdelivered⟩ := hf
  cases hm with
  | none => exact ⟨h, hqueue, haccepted, hdelivered⟩
  | told => exact ⟨h, hqueue, haccepted, hdelivered⟩
  | woke => exact ⟨h, hqueue, haccepted, hdelivered⟩
  | slept => exact ⟨h, hqueue, haccepted, hdelivered⟩
  | @entered i entry entries hp =>
    refine ⟨h ++ [(i, .enqueue entry)], ?_, ?_, ?_⟩
    · rw [WorkQueue.after_append, ← hqueue]
      rfl
    · rw [WorkQueue.log_append, WorkQueue.accepted, List.filterMap_append, ← WorkQueue.accepted,
        ← haccepted, ← hqueue]
      simp only [acceptedItems, List.reverse_cons, List.filterMap_append]
      refine congrArg _ ?_
      cases entry with
      | endOfStream => rfl
      | item value => cases hc : m.queue.closed <;>
          simp [WorkQueue.log, WorkQueue.perform, WorkQueue.enqueue, hc, WorkQueue.Event.accepted?]
    · rw [WorkQueue.log_append, WorkQueue.delivered, List.filterMap_append, ← WorkQueue.delivered,
        ← hdelivered]
      exact (List.append_nil _).symm
  | @took i old entry queue hc hold ht =>
    refine ⟨h ++ [(i, .dequeue)], ?_, ?_, ?_⟩
    · rw [WorkQueue.after_append, ← hqueue]
      simp [WorkQueue.after, WorkQueue.perform, ht]
    · rw [WorkQueue.log_append, WorkQueue.accepted, List.filterMap_append, ← WorkQueue.accepted,
        ← haccepted]
      exact (List.append_nil _).symm
    · rw [WorkQueue.log_append, WorkQueue.delivered, List.filterMap_append, ← WorkQueue.delivered,
        ← hdelivered, ← hqueue]
      simp only [deliveredItems, List.reverse_cons, List.filterMap_append]
      refine congrArg _ ?_
      cases entry <;> simp [WorkQueue.log, WorkQueue.perform, ht, WorkQueue.Event.delivered?]

/-- Every interleaving leaves the queue as some order of whole operations does. -/
theorem exists_history (entries : List (List (WorkItem α))) (consumers : Nat)
    (schedule : List Action) : ∃ h, ((start entries consumers).run schedule).Follows h := by
  refine run_induction (P := fun m => ∃ h, m.Follows h) (fun hm => ?_) ⟨[], rfl, rfl, rfl⟩ schedule
  rintro ⟨h, hf⟩
  exact hf.moves hm

/-- What any interleaving has delivered, with what it has left in the queue, is what it has accepted,
in order. -/
theorem delivered_append_queued (entries : List (List (WorkItem α))) (consumers : Nat)
    (schedule : List Action) :
    ((start entries consumers).run schedule).deliveredItems ++
        ((start entries consumers).run schedule).queue.items =
      ((start entries consumers).run schedule).acceptedItems := by
  obtain ⟨h, hqueue, haccepted, hdelivered⟩ := exists_history entries consumers schedule
  rw [hqueue, haccepted, hdelivered, WorkQueue.delivered_append_items]
  rfl

/-! ### Main statement -/

/-- No producer stands between its change of the queue and its notice, and nobody that asks is
awake. -/
structure AtRest (m : Monitor α) : Prop where
  told : ∀ p ∈ m.producers, p.owed = none
  looked : ∀ c ∈ m.consumers, c ≠ .awake

/-- **No wake-up is lost.**  Whatever any number of producers enter, and in whatever order they and any
number of consumers take their steps: when everything is at rest and a consumer sleeps, the queue is
empty and open. -/
theorem nothing_to_take_of_blocked (entries : List (List (WorkItem α))) (consumers : Nat)
    (schedule : List Action) (hrest : ((start entries consumers).run schedule).AtRest)
    (hblocked : .blocked ∈ ((start entries consumers).run schedule).consumers) :
    ((start entries consumers).run schedule).queue.items = [] ∧
      ((start entries consumers).run schedule).queue.closed = false := by
  have hcovered := covered_run entries consumers schedule
  generalize (start entries consumers).run schedule = m at *
  have hsleep : 0 < total (isAt .blocked) m.consumers :=
    Nat.lt_of_lt_of_le Nat.zero_lt_one (measure_le_total (isAt .blocked) hblocked)
  have howed (notice : Notice) : total (owes notice) m.producers = 0 :=
    total_eq_zero fun p hp => by simp [owes, hrest.told p hp]
  have hawake : total (isAt .awake) m.consumers = 0 :=
    total_eq_zero fun c hc => by
      have := hrest.looked c hc
      simp only [isAt, if_neg this]
  have hopen : m.queue.closed = false := by
    cases hc : m.queue.closed with
    | false => rfl
    | true =>
      have := hcovered.closed hsleep hc
      rw [howed] at this
      cases this
  have hitems := hcovered.items hsleep hopen
  rw [hawake, howed, Nat.add_zero, Nat.le_zero_eq, WorkQueue.length_eq] at hitems
  exact ⟨List.length_eq_zero_iff.1 hitems, hopen⟩

/-- A consumer that finds nothing sleeps; the first item comes and its notice wakes the sleeper, the
item is taken by another consumer before the one woken up looks, and that one sleeps again. -/
theorem nothing_to_take_of_blocked_stolen :
    let schedule : List Action :=
      [.ask 0, .look 0, .enter 0, .notify 0 0, .poll 1, .look 0]
    let m := (start [[WorkItem.item 7]] 2).run schedule
    m.AtRest ∧ .blocked ∈ m.consumers ∧ m.queue.items = [] ∧ m.queue.closed = false :=
  have hrest : ((start [[WorkItem.item 7]] 2).run
      [.ask 0, .look 0, .enter 0, .notify 0 0, .poll 1, .look 0]).AtRest :=
    ⟨by decide, by decide⟩
  have hblocked : .blocked ∈ ((start [[WorkItem.item 7]] 2).run
      [.ask 0, .look 0, .enter 0, .notify 0 0, .poll 1, .look 0]).consumers := by decide
  ⟨hrest, hblocked, nothing_to_take_of_blocked _ _ _ hrest hblocked⟩

end FilteredChunks.Monitor
