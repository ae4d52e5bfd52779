import FilteredChunks.Bytes

/-!
# Runs of zeros

Data with many zeros get shorter when every run of zeros is written as one zero and the length of the
run, from 1 to 255.  All other bytes stand for themselves.
-/

namespace FilteredChunks.ZeroRuns

/-- The longest run that is written as one. -/
def maxRun : Nat := 255

/-- How a run is written. -/
def run (length : Nat) : Bytes := if length = 0 then [] else [0, UInt8.ofNat length]

/-- Writes data that come after a run of `length` zeros. -/
def encodeAfter (length : Nat) : Bytes → Bytes
  | [] => run length
  | b :: rest =>
    if b ≠ 0 then run length ++ b :: encodeAfter 0 rest
    else if length = maxRun then run length ++ encodeAfter 1 rest
    else encodeAfter (length + 1) rest

def encode (data : Bytes) : Bytes := encodeAfter 0 data

/-- Expands the runs.  A zero at the end that no length follows is refused. -/
def decode : Bytes → Option Bytes
  | [] => some []
  | [b] => if b = 0 then none else some [b]
  | b :: n :: rest =>
    if b = 0 then (decode rest).map (List.replicate n.toNat 0 ++ ·)
    else (decode (n :: rest)).map (b :: ·)

end FilteredChunks.ZeroRuns
