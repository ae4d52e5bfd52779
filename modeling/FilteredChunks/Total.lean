/-!
# Totals

The total of a measure over the items of a list.
-/

namespace FilteredChunks

/-- The sum of what each item measures. -/
def total {α : Type} (measure : α → Nat) : List α → Nat
  | [] => 0
  | x :: xs => measure x + total measure xs

@[simp]
theorem total_nil {α : Type} (measure : α → Nat) : total measure [] = 0 := rfl

@[simp]
theorem total_cons {α : Type} (measure : α → Nat) (x : α) (xs : List α) :
    total measure (x :: xs) = measure x + total measure xs := rfl

@[simp]
theorem total_append {α : Type} (measure : α → Nat) (xs ys : List α) :
    total measure (xs ++ ys) = total measure xs + total measure ys := by
  induction xs with
  | nil => simp
  | cons x xs ih => simp [ih, Nat.add_assoc]

theorem total_map {α β : Type} (measure : β → Nat) (f : α → β) (xs : List α) :
    total measure (xs.map f) = total (fun x => measure (f x)) xs := by
  induction xs with
  | nil => rfl
  | cons x xs ih => rw [List.map_cons, total_cons, ih, total_cons]

/-- Items that measure nothing add up to nothing. -/
theorem total_eq_zero {α : Type} {measure : α → Nat} {xs : List α} (h : ∀ x ∈ xs, measure x = 0) :
    total measure xs = 0 := by
  induction xs with
  | nil => rfl
  | cons x xs ih =>
    rw [total_cons, h x List.mem_cons_self, ih fun y hy => h y (List.mem_cons_of_mem x hy)]

theorem total_replicate {α : Type} (measure : α → Nat) (n : Nat) (x : α) :
    total measure (List.replicate n x) = n * measure x := by
  induction n with
  | zero => simp
  | succ n ih =>
    rw [List.replicate_succ, total_cons, ih, Nat.succ_mul]
    exact Nat.add_comm _ _

/-- Items that measure less add up to less. -/
theorem total_le_total {α : Type} {f g : α → Nat} {xs : List α} (h : ∀ x ∈ xs, f x ≤ g x) :
    total f xs ≤ total g xs := by
  induction xs with
  | nil => exact Nat.le_refl 0
  | cons x xs ih =>
    exact Nat.add_le_add (h x List.mem_cons_self) (ih fun y hy => h y (List.mem_cons_of_mem x hy))

theorem total_le_mul {α : Type} {measure : α → Nat} {bound : Nat} {xs : List α}
    (h : ∀ x ∈ xs, measure x ≤ bound) : total measure xs ≤ xs.length * bound := by
  induction xs with
  | nil => exact Nat.zero_le _
  | cons x xs ih =>
    have hx := h x List.mem_cons_self
    have hxs := ih fun y hy => h y (List.mem_cons_of_mem x hy)
    rw [total_cons, List.length_cons, Nat.succ_mul]
    omega

/-- Items that measure at most one add up to no more than there are. -/
theorem total_le_length {α : Type} {measure : α → Nat} {xs : List α} (h : ∀ x ∈ xs, measure x ≤ 1) :
    total measure xs ≤ xs.length :=
  Nat.mul_one xs.length ▸ total_le_mul h

/-- Putting another item in a place exchanges what the two measure. -/
theorem total_set {α : Type} (measure : α → Nat) {xs : List α} {i : Nat} {x : α} (y : α)
    (h : xs[i]? = some x) :
    total measure (xs.set i y) + measure x = total measure xs + measure y := by
  induction xs generalizing i with
  | nil => simp at h
  | cons z zs ih =>
    cases i with
    | zero =>
      cases h
      simp only [List.set_cons_zero, total_cons]
      omega
    | succ i =>
      have := ih h
      simp only [List.set_cons_succ, total_cons]
      omega

theorem measure_le_total {α : Type} (measure : α → Nat) {xs : List α} {x : α} (h : x ∈ xs) :
    measure x ≤ total measure xs := by
  induction h with
  | head ys => exact Nat.le_add_right _ _
  | tail y _ ih => exact Nat.le_trans ih (Nat.le_add_left _ _)

end FilteredChunks
