import Mathlib.Data.List.Sort
import Mathlib.Data.String.Basic
import Mathlib.Order.Basic

/-!
# Sorting by a key
-/

namespace FilteredChunks

variable {α ι : Type} [LinearOrder ι]

theorem pairwise_mergeSort_by (key : α → ι) (xs : List α) :
    (xs.mergeSort fun a b => decide (key a ≤ key b)).Pairwise fun a b => key a ≤ key b := by
  refine (List.pairwise_mergeSort ?_ ?_ xs).imp fun h => of_decide_eq_true h
  · intro a b c hab hbc
    exact decide_eq_true (le_trans (of_decide_eq_true hab) (of_decide_eq_true hbc))
  · intro a b
    rw [Bool.or_eq_true, decide_eq_true_eq, decide_eq_true_eq]
    exact le_total (key a) (key b)

theorem mergeSort_eq_of_perm (key : α → ι) {xs ys : List α} (hp : xs.Perm ys)
    (hd : ∀ a ∈ xs, ∀ b ∈ xs, key a = key b → a = b) :
    (xs.mergeSort fun a b => decide (key a ≤ key b)) =
      ys.mergeSort fun a b => decide (key a ≤ key b) := by
  have hxs := List.mergeSort_perm xs fun a b => decide (key a ≤ key b)
  have hys := List.mergeSort_perm ys fun a b => decide (key a ≤ key b)
  refine List.Perm.eq_of_pairwise ?_ (pairwise_mergeSort_by key xs) (pairwise_mergeSort_by key ys)
    (hxs.trans (hp.trans hys.symm))
  intro a b ha hb hab hba
  exact hd a (hxs.mem_iff.1 ha) b (hp.mem_iff.2 (hys.mem_iff.1 hb)) (le_antisymm hab hba)

end FilteredChunks
