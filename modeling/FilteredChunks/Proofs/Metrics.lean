import FilteredChunks.Metrics
import FilteredChunks.Total

/-!
# What updates come to

A counter grows by the total of what the updates of its name add (`counted`), wherever they stand
among others, until it holds the largest value (`counter_applyAll`), and so does the number of samples
of a histogram (`samples_applyAll`).  A gauge goes up and down with the updates of its name and is left
alone by others (`gauge_applyAll_of_ne`).
-/

namespace FilteredChunks.Metrics

/-- The name of the metric that an update is about. -/
def Update.name : Update → String
  | count name _ | sample name _ | set name _ | raise name _ | lower name _ => name

/-- What an update adds to the counter of a name. -/
def Update.amount (name : String) : Update → Nat
  | .count n amount => if n = name then amount else 0
  | _ => 0

/-- What an update adds to the number of samples of a name. -/
def Update.sampled (name : String) : Update → Nat
  | .sample n _ => if n = name then 1 else 0
  | _ => 0

/-- What updates add to the counter of a name. -/
def counted (name : String) (updates : List Update) : Nat := total (Update.amount name) updates

@[simp]
theorem counted_nil (name : String) : counted name [] = 0 := rfl

@[simp]
theorem counted_append (name : String) (xs ys : List Update) :
    counted name (xs ++ ys) = counted name xs + counted name ys := total_append ..

@[simp]
theorem counted_count_self (name : String) (amount : Nat) :
    counted name [.count name amount] = amount := by
  simp [counted, Update.amount]

theorem counted_count_of_ne {name name' : String} (h : name' ≠ name) (amount : Nat) :
    counted name [.count name' amount] = 0 := by
  simp [counted, Update.amount, h]

namespace Store

/-- The value of a counter; one that was never counted has none, which is zero. -/
def counter (store : Store) (name : String) : Nat := store.counters[name]?.getD 0

/-- The number of samples of a histogram. -/
def samples (store : Store) (name : String) : Nat := (store.histograms[name]?.getD .empty).count

/-- The value of a gauge; one that was never set has none, which is zero. -/
def gauge (store : Store) (name : String) : Nat := store.gauges[name]?.getD 0

theorem applyAll_append (store : Store) (xs ys : List Update) :
    store.applyAll (xs ++ ys) = (store.applyAll xs).applyAll ys := List.foldl_append

theorem applyAll_concat (store : Store) (updates : List Update) (update : Update) :
    store.applyAll (updates ++ [update]) = (store.applyAll updates).apply update :=
  store.applyAll_append updates [update]

/-! ### Counters and histograms -/

theorem counter_apply (store : Store) (name : String) (h : store.counter name ≤ largest)
    (update : Update) :
    (store.apply update).counter name = add (store.counter name) (update.amount name) := by
  have hkept : add (store.counter name) 0 = store.counter name := Nat.min_eq_left h
  cases update with
  | count n amount =>
    by_cases hn : n = name
    · subst hn
      simp [apply, counter, Update.amount]
    · have hne : ¬ compare n name = .eq := by simpa using hn
      simp only [Update.amount, if_neg hn, hkept]
      simp [apply, counter, Std.ExtTreeMap.getElem?_alter, hne]
  | sample => exact hkept.symm
  | set => exact hkept.symm
  | raise => exact hkept.symm
  | lower => exact hkept.symm

theorem samples_apply (store : Store) (name : String) (h : store.samples name ≤ largest)
    (update : Update) :
    (store.apply update).samples name = add (store.samples name) (update.sampled name) := by
  have hkept : add (store.samples name) 0 = store.samples name := Nat.min_eq_left h
  cases update with
  | sample n value =>
    by_cases hn : n = name
    · subst hn
      simp [apply, samples, Update.sampled, Histogram.record]
    · have hne : ¬ compare n name = .eq := by simpa using hn
      simp only [Update.sampled, if_neg hn, hkept]
      simp [apply, samples, Std.ExtTreeMap.getElem?_alter, hne]
  | count => exact hkept.symm
  | set => exact hkept.symm
  | raise => exact hkept.symm
  | lower => exact hkept.symm

/-- A value that each update adds to grows by their total, until it is the largest. -/
theorem applyAll_adds {value : Store → Nat} {measure : Update → Nat}
    (hstep : ∀ store : Store, value store ≤ largest → ∀ update,
      value (store.apply update) = add (value store) (measure update))
    (store : Store) (h : value store ≤ largest) (updates : List Update) :
    value (store.applyAll updates) = add (value store) (total measure updates) := by
  induction updates generalizing store with
  | nil => exact (Nat.min_eq_left h).symm
  | cons update rest ih =>
    have hfirst := hstep store h update
    have hle : value (store.apply update) ≤ largest := by
      rw [hfirst]
      exact Nat.min_le_right _ _
    refine (ih (store.apply update) hle).trans ?_
    rw [hfirst, total_cons]
    unfold add
    omega

/-- **Updates raise a counter by what they count.** -/
theorem counter_applyAll (store : Store) (name : String) (h : store.counter name ≤ largest)
    (updates : List Update) :
    (store.applyAll updates).counter name = add (store.counter name) (counted name updates) :=
  applyAll_adds (fun store h update => store.counter_apply name h update) store h updates

/-- **Updates add to a histogram the samples that they record.** -/
theorem samples_applyAll (store : Store) (name : String) (h : store.samples name ≤ largest)
    (updates : List Update) :
    (store.applyAll updates).samples name =
      add (store.samples name) (total (Update.sampled name) updates) :=
  applyAll_adds (fun store h update => store.samples_apply name h update) store h updates

theorem counter_applyAll_empty (name : String) (updates : List Update) :
    (empty.applyAll updates).counter name = min (counted name updates) largest := by
  rw [counter_applyAll empty name (Nat.zero_le _), add]
  exact congrArg (min · largest) (Nat.zero_add _)

theorem samples_applyAll_empty (name : String) (updates : List Update) :
    (empty.applyAll updates).samples name = min (total (Update.sampled name) updates) largest := by
  rw [samples_applyAll empty name (Nat.zero_le _), add]
  exact congrArg (min · largest) (Nat.zero_add _)

/-! ### Gauges -/

theorem gauge_apply_of_ne (store : Store) {name : String} {update : Update} (h : update.name ≠ name) :
    (store.apply update).gauge name = store.gauge name := by
  cases update with
  | count => rfl
  | sample => rfl
  | set n value =>
    have hne : ¬ compare n name = .eq := by simpa [Update.name] using h
    simp [apply, gauge, Std.ExtTreeMap.getElem?_insert, hne]
  | raise n amount | lower n amount =>
    have hne : ¬ compare n name = .eq := by simpa [Update.name] using h
    simp [apply, gauge, Std.ExtTreeMap.getElem?_alter, hne]

theorem gauge_applyAll_of_ne (store : Store) {name : String} {updates : List Update}
    (h : ∀ update ∈ updates, update.name ≠ name) :
    (store.applyAll updates).gauge name = store.gauge name := by
  induction updates generalizing store with
  | nil => rfl
  | cons update rest ih =>
    rw [applyAll, List.foldl_cons]
    exact (ih (store.apply update) fun u hu => h u (List.mem_cons_of_mem _ hu)).trans
      (store.gauge_apply_of_ne (h update List.mem_cons_self))

theorem gauge_raise (store : Store) (name : String) (amount : Nat) :
    (store.apply (.raise name amount)).gauge name = add (store.gauge name) amount := by
  simp [apply, gauge]

theorem gauge_lower (store : Store) (name : String) (amount : Nat) :
    (store.apply (.lower name amount)).gauge name = store.gauge name - amount := by
  simp [apply, gauge]

end Store

end FilteredChunks.Metrics
