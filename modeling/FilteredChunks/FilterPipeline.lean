import FilteredChunks.FilterError
import FilteredChunks.FilterStep

/-!
# Pipelines

The ordered steps applied to every chunk of a dataset: first to last on write, last to first on read.
Numbers may repeat; an operation by number addresses the first step that has it.
-/

namespace FilteredChunks

/-- The steps of a pipeline and the number of step slots set aside for them. -/
structure FilterPipeline where
  steps : List FilterStep
  slots : Nat
  deriving DecidableEq

namespace FilterPipeline

/-- Most steps one pipeline may have. -/
def maxSteps : Nat := 32

/-- The pipeline without steps. -/
def empty : FilterPipeline := ⟨[], 0⟩

def length (p : FilterPipeline) : Nat := p.steps.length

def isEmpty (p : FilterPipeline) : Bool := p.steps.isEmpty

/-- The step at a position. -/
def get? (p : FilterPipeline) (index : Nat) : Option FilterStep := p.steps[index]?

/-- Position of the first step with a number. -/
def findIndex? (p : FilterPipeline) (id : FilterId) : Option Nat :=
  p.steps.findIdx? fun step => step.id == id

def contains (p : FilterPipeline) (id : FilterId) : Bool := (p.findIndex? id).isSome

/-- The first step with a number. -/
def find (p : FilterPipeline) (id : FilterId) : Except FilterError FilterStep :=
  match p.steps.find? fun step => step.id == id with
  | some step => .ok step
  | none => .error (.filterNotInPipeline id)

/-- Appends a step.  The number, the flags and the length are checked, in this order. -/
def push (p : FilterPipeline) (step : FilterStep) : Except FilterError FilterPipeline :=
  if !step.id.isValid then .error (.invalidFilterId step.id)
  else if !step.flags.isDefinition then .error (.invalidFlags step.flags)
  else if maxSteps ≤ p.length then .error .tooManyFilters
  else
    let slots := if p.length = p.slots then max maxSteps (2 * p.slots) else p.slots
    .ok ⟨p.steps ++ [step], slots⟩

/-- Appends a step without a name. -/
def append (p : FilterPipeline) (id : FilterId) (flags : FilterFlags) (words : List UInt32) :
    Except FilterError FilterPipeline :=
  p.push (.ofWords id flags words)

/-- Gives other flags and client words to the first step with a number. -/
def modify (p : FilterPipeline) (id : FilterId) (flags : FilterFlags) (words : List UInt32) :
    Except FilterError FilterPipeline :=
  if !flags.isDefinition then .error (.invalidFlags flags)
  else
    match p.findIndex? id with
    | some index => .ok { p with steps := p.steps.modify index fun s => s.redefine flags words }
    | none => .error (.filterNotInPipeline id)

/-- Removes the first step with a number, or every step for `FilterId.all`.  There is nothing to
remove from an empty pipeline, which is no failure. -/
def delete (p : FilterPipeline) (id : FilterId) : Except FilterError FilterPipeline :=
  if p.isEmpty then .ok p
  else if id = FilterId.all then .ok { p with steps := [] }
  else
    match p.findIndex? id with
    | some index => .ok { p with steps := p.steps.eraseIdx index }
    | none => .error (.filterNotInPipeline id)

/-- A copy has just the slots that its steps need. -/
def copy (p : FilterPipeline) : FilterPipeline := ⟨p.steps, p.length⟩

end FilterPipeline

end FilteredChunks
