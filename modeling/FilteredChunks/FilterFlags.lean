/-!
# Flags of a filter step

The low byte holds the flags a step is defined with; the higher bits are only given when a codec is
called.
-/

namespace FilteredChunks

/-- A set of flags. -/
structure FilterFlags where
  bits : BitVec 32
  deriving DecidableEq

namespace FilterFlags

def mandatory : FilterFlags := ⟨0⟩

/-- The step may fail to apply. -/
def optional : FilterFlags := ⟨0x0001⟩

/-- All bits a step may be defined with. -/
def definitionMask : FilterFlags := ⟨0x00ff⟩

/-- The codec is to undo its transform. -/
def reverse : FilterFlags := ⟨0x0100⟩

/-- The codec is not to verify checksums. -/
def skipChecks : FilterFlags := ⟨0x0200⟩

instance : OrOp FilterFlags := ⟨fun a b => ⟨a.bits ||| b.bits⟩⟩

/-- Every bit of `b` is set in `a`. -/
def contains (a b : FilterFlags) : Bool := a.bits &&& b.bits == b.bits

def isOptional (flags : FilterFlags) : Bool := flags.contains optional

/-- Only definition bits are set. -/
def isDefinition (flags : FilterFlags) : Bool := flags.bits &&& ~~~definitionMask.bits == 0

/-! ### Lemmas -/

/-- Flags beyond those of a definition are in no definition. -/
theorem contains_of_isDefinition {flags flag : FilterFlags} (h : flags.isDefinition = true)
    (hflag : flag.bits &&& definitionMask.bits = 0) (hne : flag.bits ≠ 0) :
    flags.contains flag = false := by
  have h0 : flags.bits &&& ~~~definitionMask.bits = 0 := by simpa [isDefinition] using h
  refine beq_eq_false_iff_ne.2 fun hflags => hne (BitVec.eq_of_getLsbD_eq fun i hi => ?_)
  -- a bit of the flag would be one of the definition flags
  have hbit := congrArg (·.getLsbD i) hflags
  have hdefinition := congrArg (·.getLsbD i) h0
  have hbeyond := congrArg (·.getLsbD i) hflag
  simp only [BitVec.getLsbD_and, BitVec.getLsbD_not, hi, decide_true, Bool.true_and] at *
  grind

/-- A step is never defined with the reverse flag. -/
theorem contains_reverse_of_isDefinition {flags : FilterFlags} (h : flags.isDefinition = true) :
    flags.contains reverse = false := contains_of_isDefinition h (by decide) (by decide)

/-- A step is never defined to go without checks. -/
theorem contains_skipChecks_of_isDefinition {flags : FilterFlags} (h : flags.isDefinition = true) :
    flags.contains skipChecks = false := contains_of_isDefinition h (by decide) (by decide)

theorem contains_or_right (a b : FilterFlags) : (a ||| b).contains b = true := by
  show ((a.bits ||| b.bits) &&& b.bits == b.bits) = true
  rw [beq_iff_eq, BitVec.and_or_distrib_right, BitVec.and_self]
  ext i hi
  simp

/-- Other flags make no difference. -/
theorem contains_or_of_disjoint (a : FilterFlags) {b c : FilterFlags} (h : b.bits &&& c.bits = 0) :
    (a ||| b).contains c = a.contains c := by
  show ((a.bits ||| b.bits) &&& c.bits == c.bits) = (a.bits &&& c.bits == c.bits)
  rw [BitVec.and_or_distrib_right, h]
  exact congrArg (· == c.bits) (BitVec.or_zero ..)

theorem contains_reverse_or (flags : FilterFlags) : (flags ||| reverse).contains reverse = true :=
  contains_or_right flags reverse

end FilterFlags

end FilteredChunks
