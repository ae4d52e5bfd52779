/-!
# Arithmetic that is checked for overflow

Sums and products of words of 64 bits.  One that is too large for a word is no result; any other is exact.
-/

namespace FilteredChunks.Checked

/-- The sum of two words, unless it overflows. -/
def add? (a b : UInt64) : Option UInt64 :=
  if a.toBitVec.uaddOverflow b.toBitVec then none else some (a + b)

/-- The product of two words, unless it overflows. -/
def mul? (a b : UInt64) : Option UInt64 :=
  if a.toBitVec.umulOverflow b.toBitVec then none else some (a * b)

variable {a b : UInt64}

theorem add?_of_le (h : UInt64.size ≤ a.toNat + b.toNat) : add? a b = none := by
  rw [add?, if_pos]
  exact decide_eq_true h

theorem exists_add? (h : a.toNat + b.toNat < UInt64.size) :
    ∃ sum, add? a b = some sum ∧ sum.toNat = a.toNat + b.toNat := by
  refine ⟨a + b, ?_, ?_⟩
  · rw [add?, if_neg]
    exact fun hover => Nat.not_le.2 h (of_decide_eq_true hover)
  · rw [UInt64.toNat_add]
    exact Nat.mod_eq_of_lt h

theorem mul?_of_le (h : UInt64.size ≤ a.toNat * b.toNat) : mul? a b = none := by
  rw [mul?, if_pos]
  exact decide_eq_true h

theorem exists_mul? (h : a.toNat * b.toNat < UInt64.size) :
    ∃ product, mul? a b = some product ∧ product.toNat = a.toNat * b.toNat := by
  refine ⟨a * b, ?_, ?_⟩
  · rw [mul?, if_neg]
    exact fun hover => Nat.not_le.2 h (of_decide_eq_true hover)
  · rw [UInt64.toNat_mul]
    exact Nat.mod_eq_of_lt h

end FilteredChunks.Checked
