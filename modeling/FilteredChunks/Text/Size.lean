import FilteredChunks.Text.Decimal

/-!
# Sizes, rates and durations in words

A size is given in the largest binary unit that makes it at least one, with two decimal places; sizes
in bytes have none.  A duration from one minute on is given in minutes and seconds, a shorter one in
seconds with milliseconds.
-/

namespace FilteredChunks.Size

def units : List String := ["B", "KiB", "MiB", "GiB", "TiB"]

/-- Divides by 1024 as long as the quotient is at least that and there is a further unit; the unit
reached. -/
def scale : (further : Nat) → Float → Nat × Float
  | 0, x => (0, x)
  | further + 1, x =>
    if x ≥ 1024.0 then
      let (unit, x) := scale further (x / 1024.0)
      (unit + 1, x)
    else (0, x)

/-- A number of bytes below 2^64. -/
def bytes (n : Nat) : String :=
  match scale (units.length - 1) n.toUInt64.toFloat with
  | (0, _) => s!"{n} B"
  | (unit, x) => Decimal.fixedFloat 2 x ++ " " ++ units.getD unit ""

/-- A number of bytes per second.  What is no positive number counts as nothing. -/
def rate (x : Float) : String :=
  if !x.isFinite || x ≤ 0.0 then "0 B" else bytes x.toUInt64.toNat

def nanosPerSecond : Nat := 1000000000

def nanosPerMilli : Nat := 1000000

/-- A duration in seconds and nanoseconds; these may make up further seconds. -/
def duration (seconds nanoseconds : Nat) : String :=
  let seconds := seconds + nanoseconds / nanosPerSecond
  if 60 ≤ seconds then
    Decimal.zeroPadded 2 (seconds / 60) ++ ":" ++ Decimal.zeroPadded 2 (seconds % 60)
  else
    s!"{seconds}." ++ Decimal.zeroPadded 3 (nanoseconds % nanosPerSecond / nanosPerMilli) ++ "s"

end FilteredChunks.Size
