/-!
# Filter masks

One bit per pipeline step; a set bit says that the step did not apply.  A mask is stored with each
chunk so that a reader knows which steps to undo.  Positions from 32 on have no bit.
-/

namespace FilteredChunks

/-- The steps that did not apply. -/
structure FilterMask where
  bits : BitVec 32
  deriving DecidableEq

namespace FilterMask

def empty : FilterMask := ⟨0⟩

/-- Marks the step at a position. -/
def set (mask : FilterMask) (index : Nat) : FilterMask :=
  if index < 32 then ⟨mask.bits ||| BitVec.twoPow 32 index⟩ else mask

/-- The step at a position is marked. -/
def isSet (mask : FilterMask) (index : Nat) : Bool := mask.bits.getLsbD index

def isEmpty (mask : FilterMask) : Bool := mask.bits == 0

/-! ### Lemmas -/

@[simp]
theorem isSet_empty (i : Nat) : empty.isSet i = false := by simp [empty, isSet]

/-- Setting a bit sets that bit and no other. -/
theorem isSet_set (mask : FilterMask) (i j : Nat) :
    (mask.set i).isSet j = (mask.isSet j || decide (i < 32) && decide (i = j)) := by
  unfold set
  split
  · next h => simp [isSet, BitVec.getLsbD_twoPow, h]
  · next h => simp [h]

end FilterMask

end FilteredChunks
