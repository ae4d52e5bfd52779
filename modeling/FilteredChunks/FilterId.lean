/-!
# Filter numbers

Filters are known by number.  Numbers from 0 to 65535 are valid, those below 256 are predefined and
cannot be registered or removed by applications, and 0 stands for every filter of a pipeline.
-/

namespace FilteredChunks

/-- The number under which a filter is known. -/
abbrev FilterId := Int

namespace FilterId

/-- Stands for every step where one step of a pipeline is to be deleted. -/
def all : FilterId := 0

def deflate : FilterId := 1

def shuffle : FilterId := 2

def fletcher32 : FilterId := 3

def lz4 : FilterId := 32004

def zstd : FilterId := 32015

/-- The first number free for applications. -/
def firstFree : FilterId := 256

/-- The largest valid number. -/
def largest : FilterId := 65535

def isValid (id : FilterId) : Bool := decide (0 ≤ id ∧ id ≤ largest)

def isPredefined (id : FilterId) : Bool := decide (id < firstFree)

theorem isValid_iff {id : FilterId} : isValid id = true ↔ 0 ≤ id ∧ id ≤ 65535 :=
  decide_eq_true_iff

end FilterId

end FilteredChunks
