import FilteredChunks.Proofs.Pool.History

/-!
# What a step of a caller keeps

A chunk counts as submitted before it enters the queue, and the pool stops accepting before the queue
is closed; `CallPhase.owed` and `CallPhase.owesEnd` are what a caller owes in between.  `CallerEffect`
says what a step of a caller does to the queue, the counts and the answers, in terms of what happens in
it; `callerEffect_of_step` proves it of every step.
-/

namespace FilteredChunks.Pool

variable {σ : Type}

/-- Chunks that count as submitted and are not in the queue yet. -/
def CallPhase.owed : CallPhase → Nat
  | counted _ | refused _ => 1
  | _ => 0

/-- Marks of the end yet to be put into the queue. -/
def CallPhase.owesEnd : CallPhase → Nat
  | closing => 1
  | _ => 0

def Call.isShutdown : Call → Bool
  | shutdown => true
  | submit _ => false

/-- The answers of a caller, one that is on its way counting as given. -/
def Caller.given (c : Caller) : List (Except FilterError Unit) :=
  match c.phase with
  | .reporting _ => c.answers ++ [.ok ()]
  | _ => c.answers

/-- The chunk of a call that was to submit one and was answered well. -/
def acceptedBy : Call × Except FilterError Unit → Option Chunk
  | (.submit chunk, .ok ()) => some chunk
  | _ => none

/-- The chunks among some calls whose submission was answered well. -/
def acceptedOf (calls : List Call) (answers : List (Except FilterError Unit)) : List Chunk :=
  (calls.zip answers).filterMap acceptedBy

/-- The chunks whose submission was answered well, by the calls and the answers of each caller. -/
def acceptedFrom (calls : List (List Call)) (answers : List (List (Except FilterError Unit))) :
    List Chunk :=
  (List.zipWith acceptedOf calls answers).flatten

/-- The requests a caller has not answered, the current one first. -/
def Caller.Unanswered (c : Caller) (rest : List Call) : Prop :=
  match c.phase with
  | .idle => rest = c.calls
  | .admitted chunk | .counted chunk | .refused chunk => rest = .submit chunk :: c.calls
  | .closing => rest = .shutdown :: c.calls
  | .reporting _ => ∃ call, rest = call :: c.calls

/-- A caller has answered some of its requests, in order, and the others are yet to come. -/
def Caller.Follows (c : Caller) (calls : List Call) : Prop :=
  ∃ done rest, calls = done ++ rest ∧ done.length = c.answers.length ∧ c.Unanswered rest

/-- Whether a pool accepts chunks, as a number. -/
def Core.open (core : Core σ) : Nat := if core.accepting then 1 else 0

/-- A caller goes on to `c'`, and if the requests it follows are `calls`, then with it `accepted` are
accepted of them. -/
def Caller.Continues (c c' : Caller) (accepted : List Chunk) : Prop :=
  ∀ calls, c.Follows calls →
    c'.Follows calls ∧ acceptedOf calls c'.given = acceptedOf calls c.given ++ accepted

/-- What a step of a caller does, `e` being what happens in it. -/
structure CallerEffect (c : Caller) (core : Core σ) (e : List Happening) (c' : Caller)
    (core' : Core σ) : Prop where
  taken : taken e = []
  applications : applications e = []
  completed : core'.completed = core.completed
  tasks : core'.tasks = core.tasks
  outcomes : core'.outcomes = core.outcomes
  shared : core'.shared = core.shared
  items : core'.queue.items = core.queue.items ++ entered e
  closed : core'.queue.closed = (core.queue.closed || decide (0 < ends e))
  submitted : core'.submitted + c.phase.owed = core.submitted + c'.phase.owed + (entered e).length
  ends : core'.open + c'.phase.owesEnd + ends e = core.open + c.phase.owesEnd
  /-- A pool that still accepts has not seen a request to shut down. -/
  shutdowns : core'.accepting = true → core.accepting = true ∧
    c'.calls.countP Call.isShutdown = c.calls.countP Call.isShutdown
  continues : c.Continues c' (entered e)

/-! ### Answers -/

theorem acceptedOf_concat {done : List Call} {answers : List (Except FilterError Unit)}
    (h : done.length = answers.length) (call : Call) (rest : List Call)
    (answer : Except FilterError Unit) :
    acceptedOf (done ++ call :: rest) (answers ++ [answer]) =
      acceptedOf (done ++ call :: rest) answers ++ (acceptedBy (call, answer)).toList := by
  have h0 : (done ++ call :: rest).zip answers = done.zip answers := by
    rw [← List.append_nil answers, List.zip_append (by simpa using h)]
    simp
  have h1 : (done ++ call :: rest).zip (answers ++ [answer]) =
      done.zip answers ++ [(call, answer)] := by
    rw [List.zip_append h]
    simp
  rw [acceptedOf, acceptedOf, h0, h1, List.filterMap_append]
  cases ha : acceptedBy (call, answer) <;> simp [ha]

theorem Caller.Continues.silent {c c' : Caller} (ha : c'.answers = c.answers)
    (hg : c'.given = c.given) (hu : ∀ rest, c.Unanswered rest → c'.Unanswered rest) :
    c.Continues c' [] := by
  rintro calls ⟨done, rest, rfl, hlen, hrest⟩
  exact ⟨⟨done, rest, rfl, by rw [ha, hlen], hu rest hrest⟩, by rw [hg, List.append_nil]⟩

theorem Caller.Continues.answer (c : Caller) (call : Call) (calls : List Call)
    (result : Except FilterError Unit) (hg : c.given = c.answers)
    (hu : ∀ rest, c.Unanswered rest → rest = call :: calls) :
    c.Continues ⟨.idle, calls, c.answers ++ [result]⟩ (acceptedBy (call, result)).toList := by
  rintro all ⟨done, rest, rfl, hlen, hrest⟩
  obtain rfl := hu rest hrest
  refine ⟨⟨done ++ [call], calls, by simp, by simp [hlen], rfl⟩, ?_⟩
  rw [hg]
  exact acceptedOf_concat hlen call calls result

theorem Caller.Continues.report (c : Caller) (call : Call) (updates : List Metrics.Update)
    (hg : c.given = c.answers) (hu : ∀ rest, c.Unanswered rest → rest = call :: c.calls) :
    c.Continues { c with phase := .reporting updates } (acceptedBy (call, .ok ())).toList := by
  rintro all ⟨done, rest, rfl, hlen, hrest⟩
  obtain rfl := hu rest hrest
  refine ⟨⟨done, call :: c.calls, rfl, hlen, call, rfl⟩, ?_⟩
  rw [hg]
  exact acceptedOf_concat hlen call c.calls (.ok ())

/-- When one caller goes on, the requests of all are still followed, and what is accepted of it is
accepted of all. -/
theorem Caller.Continues.set {c c' : Caller} {accepted : List Chunk} (h : c.Continues c' accepted)
    {calls : List (List Call)} {callers : List Caller} {i : Nat}
    (hf : List.Forall₂ (fun calls c => c.Follows calls) calls callers)
    (hc : callers[i]? = some c) :
    List.Forall₂ (fun calls c => c.Follows calls) calls (callers.set i c') ∧
      ∀ p : Chunk → Bool, (acceptedFrom calls ((callers.set i c').map Caller.given)).countP p =
        (acceptedFrom calls (callers.map Caller.given)).countP p + accepted.countP p := by
  induction hf generalizing i with
  | nil => simp at hc
  | cons hd hf ih =>
    cases i with
    | zero =>
      cases hc
      obtain ⟨hd', haccepted⟩ := h _ hd
      refine ⟨.cons hd' hf, fun p => ?_⟩
      simp only [acceptedFrom, List.set_cons_zero, List.map_cons, List.zipWith_cons_cons,
        List.flatten_cons, List.countP_append, haccepted]
      omega
    | succ i =>
      obtain ⟨hf', haccepted⟩ := ih hc
      refine ⟨.cons hd hf', fun p => ?_⟩
      have := haccepted p
      simp only [acceptedFrom, List.set_cons_succ, List.map_cons, List.zipWith_cons_cons,
        List.flatten_cons, List.countP_append] at this ⊢
      omega

/-! ### Every step of a caller -/

theorem CallerEffect.of_core {c c' : Caller} {core core' : Core σ}
    (hcore : ∃ accepting submitted metrics, core' =
      { core with accepting := accepting, submitted := submitted, metrics := metrics })
    (hsubmitted : core'.submitted + c.phase.owed = core.submitted + c'.phase.owed)
    (hends : core'.open + c'.phase.owesEnd = core.open + c.phase.owesEnd)
    (hshutdowns : core'.accepting = true → core.accepting = true ∧
      c'.calls.countP Call.isShutdown = c.calls.countP Call.isShutdown)
    (hcontinues : c.Continues c' []) : CallerEffect c core [] c' core' := by
  obtain ⟨accepting, submitted, metrics, rfl⟩ := hcore
  constructor
  case items => exact (List.append_nil _).symm
  case closed => exact (Bool.or_false _).symm
  case submitted => exact hsubmitted
  case ends => exact hends
  case shutdowns => exact hshutdowns
  case continues => exact hcontinues
  all_goals rfl

theorem beginCall_effect {calls : List Call} {answers : List (Except FilterError Unit)}
    {c' : Caller} {core core' : Core σ}
    (h : beginCall ⟨.idle, calls, answers⟩ core = some (c', core')) :
    CallerEffect ⟨.idle, calls, answers⟩ core [] c' core' := by
  cases calls with
  | nil => cases h
  | cons call calls =>
    have answer (result : Except FilterError Unit) :=
      Caller.Continues.answer ⟨.idle, call :: calls, answers⟩ call calls result rfl fun _ hr => hr
    cases call with
    | submit chunk =>
      simp only [beginCall] at h
      split at h
      · next ha =>
        cases h
        exact .of_core ⟨_, _, _, rfl⟩ rfl rfl (fun _ => ⟨ha, rfl⟩) (.silent rfl rfl fun _ hr => hr)
      · next ha =>
        cases h
        exact .of_core ⟨_, _, _, rfl⟩ rfl rfl (fun ha' => absurd ha' ha) (answer _)
    | shutdown =>
      simp only [beginCall] at h
      split at h
      · next ha =>
        cases h
        refine .of_core ⟨_, _, _, rfl⟩ rfl ?_ nofun (.silent rfl rfl fun _ hr => hr)
        simp [Core.open, ha, CallPhase.owesEnd]
      · next ha =>
        cases h
        exact .of_core ⟨_, _, _, rfl⟩ rfl rfl (fun ha' => absurd ha' ha) (answer _)

/-- A chunk that was counted is put into the queue, or comes back because the queue is closed. -/
theorem counted_effect {chunk : Chunk} {calls : List Call} {answers : List (Except FilterError Unit)}
    {c' : Caller} {core core' : Core σ}
    (h : callerStep ⟨.counted chunk, calls, answers⟩ core = some (c', core')) :
    CallerEffect ⟨.counted chunk, calls, answers⟩ core
      (callerHappening ⟨.counted chunk, calls, answers⟩ core) c' core' := by
  cases hc : core.queue.closed with
  | true =>
    simp only [callerStep, WorkQueue.enqueue, hc, if_true, Option.some.injEq, Prod.mk.injEq] at h
    obtain ⟨rfl, rfl⟩ := h
    simp only [callerHappening, hc, if_true]
    exact .of_core ⟨_, _, _, rfl⟩ rfl rfl (fun ha => ⟨ha, rfl⟩) (.silent rfl rfl fun _ hr => hr)
  | false =>
    have hitems : (core.queue.enqueue (.item chunk)).2.items = core.queue.items ++ [chunk] :=
      WorkQueue.items_enqueue hc
    simp only [WorkQueue.enqueue, hc, Bool.false_eq_true, if_false] at hitems
    simp only [callerStep, WorkQueue.enqueue, hc, Bool.false_eq_true, if_false,
      Option.some.injEq, Prod.mk.injEq] at h
    obtain ⟨rfl, rfl⟩ := h
    simp only [callerHappening, hc, Bool.false_eq_true, if_false]
    constructor
    case items => exact hitems
    case closed => simp [hc, ends]
    case shutdowns => exact fun ha => ⟨ha, rfl⟩
    case continues =>
      exact .report ⟨.counted chunk, calls, answers⟩ (.submit chunk) _ rfl fun _ hr => hr
    all_goals rfl

/-- **What every step of a caller does.** -/
theorem callerEffect_of_step {c c' : Caller} {core core' : Core σ}
    (howed : c.phase.owed ≤ core.submitted) (h : callerStep c core = some (c', core')) :
    CallerEffect c core (callerHappening c core) c' core' := by
  obtain ⟨phase, calls, answers⟩ := c
  cases phase with
  | idle => exact beginCall_effect h
  | admitted chunk =>
    cases h
    exact .of_core ⟨_, _, _, rfl⟩ rfl rfl (fun ha => ⟨ha, rfl⟩) (.silent rfl rfl fun _ hr => hr)
  | counted chunk => exact counted_effect h
  | refused chunk =>
    cases h
    have : 1 ≤ core.submitted := howed
    refine .of_core ⟨_, _, _, rfl⟩ ?_ rfl (fun ha => ⟨ha, rfl⟩)
      (.answer ⟨.refused chunk, calls, answers⟩ (.submit chunk) calls _ rfl fun _ hr => hr)
    simp only [CallPhase.owed, Caller.answer]
    omega
  | closing =>
    cases h
    constructor
    case items => exact (List.append_nil _).symm
    case closed => simp [callerHappening, ends]
    case shutdowns => exact fun ha => ⟨ha, rfl⟩
    case continues =>
      exact .report ⟨.closing, calls, answers⟩ .shutdown _ rfl fun _ hr => hr
    all_goals rfl
  | reporting updates =>
    cases updates with
    | nil =>
      cases h
      refine .of_core ⟨_, _, _, rfl⟩ rfl rfl (fun ha => ⟨ha, rfl⟩) ?_
      -- the answer was on its way before, so that nothing is given anew
      rintro all ⟨done, rest, rfl, hlen, call, rfl⟩
      exact ⟨⟨done ++ [call], calls, by simp, by simp [hlen, Caller.answer], rfl⟩,
        (List.append_nil _).symm⟩
    | cons update updates =>
      cases h
      exact .of_core ⟨_, _, _, rfl⟩ rfl rfl (fun ha => ⟨ha, rfl⟩) (.silent rfl rfl fun _ hr => hr)

end FilteredChunks.Pool
