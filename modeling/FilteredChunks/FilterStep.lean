import FilteredChunks.FilterFlags
import FilteredChunks.FilterId

/-!
# Steps of a pipeline

A step names a filter and carries its flags and its client data, the words that parametrise the
filter.  Up to four words are kept inline in the step, more of them outside it.  A step that was read
from a text may have a count beyond its four slots; its words cannot be read.
-/

namespace FilteredChunks

/-- Number of client words a step holds itself. -/
def inlineWords : Nat := 4

/-- Where the client words of a step are kept. -/
inductive ClientData
  /-- The first `count` of four words.  Nothing keeps the count to the slots. -/
  | inline (count : UInt8) (slots : Vector UInt32 inlineWords)
  | separate (words : List UInt32)
  deriving DecidableEq

namespace ClientData

/-- Keeps the words inline if they fit. -/
def ofWords (words : List UInt32) : ClientData :=
  if words.length ≤ inlineWords then
    inline (UInt8.ofNat words.length) (Vector.ofFn fun i => words.getD i 0)
  else separate words

/-- The words kept, unless the count reaches beyond the slots. -/
def words? : ClientData → Option (List UInt32)
  | inline count slots =>
    if count.toNat ≤ inlineWords then some (slots.toList.take count.toNat) else none
  | separate words => some words

/-- The words that can be read. -/
def words (data : ClientData) : List UInt32 := data.words?.getD []

def isInline : ClientData → Bool
  | inline .. => true
  | separate _ => false

/-- No words at all. -/
def empty : ClientData := inline 0 (Vector.replicate inlineWords 0)

end ClientData

/-- One step of a pipeline. -/
structure FilterStep where
  id : FilterId
  flags : FilterFlags
  name : Option String
  data : ClientData
  deriving DecidableEq

namespace FilterStep

/-- A step without a name. -/
def ofWords (id : FilterId) (flags : FilterFlags) (words : List UInt32) : FilterStep :=
  ⟨id, flags, none, .ofWords words⟩

def words? (step : FilterStep) : Option (List UInt32) := step.data.words?

def words (step : FilterStep) : List UInt32 := step.data.words

/-- The client words can be read. -/
def IsReadable (step : FilterStep) : Prop := step.words?.isSome = true
  deriving Decidable

def isOptional (step : FilterStep) : Bool := step.flags.isOptional

/-- The step with other client words. -/
def withWords (step : FilterStep) (words : List UInt32) : FilterStep :=
  { step with data := .ofWords words }

/-- The step with other flags and client words. -/
def redefine (step : FilterStep) (flags : FilterFlags) (words : List UInt32) : FilterStep :=
  { step with flags := flags, data := .ofWords words }

end FilterStep

/-! ### Lemmas -/

namespace ClientData

/-- The words given are the words kept, inline or not. -/
@[simp]
theorem words?_ofWords (ws : List UInt32) : (ofWords ws).words? = some ws := by
  unfold ofWords
  split
  · next h =>
    have h8 : ws.length % 2 ^ 8 = ws.length := by
      have : inlineWords = 4 := rfl
      omega
    rw [words?, UInt8.toNat_ofNat', h8, if_pos h]
    refine congrArg some (List.ext_getElem ?_ fun i h1 h2 => ?_)
    · simp [inlineWords] at h ⊢
      omega
    · simp [List.getD_eq_getElem?_getD, h2]
  · rfl

@[simp]
theorem words_ofWords (ws : List UInt32) : (ofWords ws).words = ws := by
  rw [words, words?_ofWords]
  rfl

theorem isInline_ofWords (ws : List UInt32) :
    (ofWords ws).isInline = decide (ws.length ≤ inlineWords) := by
  unfold ofWords
  split <;> simp_all [isInline]

end ClientData

namespace FilterStep

theorem words_eq {step : FilterStep} {ws : List UInt32} (h : step.words? = some ws) :
    step.words = ws := by
  rw [words, ClientData.words]
  exact congrArg (·.getD []) h

theorem isReadable_of_words? {step : FilterStep} {ws : List UInt32} (h : step.words? = some ws) :
    step.IsReadable := Option.isSome_iff_exists.2 ⟨ws, h⟩

theorem IsReadable.words?_eq {step : FilterStep} (h : step.IsReadable) :
    step.words? = some step.words := by
  obtain ⟨ws, hws⟩ := Option.isSome_iff_exists.1 h
  rw [hws, words_eq hws]

theorem words?_eq_none_iff {step : FilterStep} : step.words? = none ↔ ¬ step.IsReadable :=
  Option.not_isSome_iff_eq_none.symm

@[simp]
theorem words_ofWords (id : FilterId) (flags : FilterFlags) (ws : List UInt32) :
    (ofWords id flags ws).words = ws := ClientData.words_ofWords ws

@[simp]
theorem words_withWords (step : FilterStep) (ws : List UInt32) :
    (step.withWords ws).words = ws := ClientData.words_ofWords ws

theorem isReadable_withWords (step : FilterStep) (ws : List UInt32) :
    (step.withWords ws).IsReadable := isReadable_of_words? (ClientData.words?_ofWords ws)

theorem isReadable_ofWords (id : FilterId) (flags : FilterFlags) (ws : List UInt32) :
    (ofWords id flags ws).IsReadable := isReadable_of_words? (ClientData.words?_ofWords ws)

end FilterStep

end FilteredChunks
