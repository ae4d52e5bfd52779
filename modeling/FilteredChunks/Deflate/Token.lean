import Std.Data.HashMap
import FilteredChunks.Deflate.Inflate

/-!
# Finding copies

Bytes are turned into items, literal bytes and copies of earlier bytes.  Where a copy might come from
is guessed from the three bytes at a position: the latest positions with the same three bytes are
tried.  A guess is only a guess: how many bytes agree is found by comparing them, so the items always
stand for the bytes they were made from.
-/

namespace FilteredChunks.Deflate

/-- Longest copy. -/
def maxCopy : Nat := 258

/-- Shortest copy. -/
def minCopy : Nat := 3

/-- Furthest way back. -/
def maxDistance : Nat := 32768

/-- Number of bytes, at most `limit`, in which the data from `i` on agrees with that from `j` on. -/
def agreement (data : Array UInt8) : (limit i j : Nat) → Nat
  | 0, _, _ => 0
  | limit + 1, i, j =>
    match data[i]?, data[j]? with
    | some a, some b => if a = b then agreement data limit (i + 1) (j + 1) + 1 else 0
    | _, _ => 0

/-- The longest copy for position `i` from one of the guessed positions, as length and distance. -/
def longestCopy (data : Array UInt8) (i : Nat) (guesses : List Nat) : Option (Nat × Nat) :=
  guesses.foldl (fun best j =>
    if j < i ∧ i - j ≤ maxDistance then
      let length := agreement data maxCopy i j
      if minCopy ≤ length ∧ (best.map (·.1)).getD 0 < length then some (length, i - j) else best
    else best) none

/-- The latest positions of each three bytes, the last one first. -/
abbrev Positions := Std.HashMap (UInt8 × UInt8 × UInt8) (List Nat)

/-- The three bytes at a position. -/
def tripleAt? (data : Array UInt8) (i : Nat) : Option (UInt8 × UInt8 × UInt8) :=
  match data[i]?, data[i + 1]?, data[i + 2]? with
  | some a, some b, some c => some (a, b, c)
  | _, _, _ => none

/-- Where a copy for position `i` may come from. -/
def Positions.guesses (seen : Positions) (data : Array UInt8) (i : Nat) : List Nat :=
  match tripleAt? data i with
  | some triple => seen.getD triple []
  | none => []

/-- Takes note of position `i`, keeping the latest `depth` positions of its bytes. -/
def Positions.note (seen : Positions) (depth : Nat) (data : Array UInt8) (i : Nat) : Positions :=
  match tripleAt? data i with
  | some triple => seen.insert triple ((i :: seen.getD triple []).take depth)
  | none => seen

/-- The items for the data from `i` on, by the longest copy at each place. -/
def itemsFrom (depth : Nat) (data : Array UInt8) (seen : Positions) (i : Nat) (items : Array Item) :
    Array Item :=
  match h : data[i]? with
  | none => items
  | some byte =>
    have : i < data.size := (Array.getElem?_eq_some_iff.mp h).1
    match longestCopy data i (seen.guesses data i) with
    | some (length + 1, distance) =>
      let seen := (List.range (length + 1)).foldl (fun seen k => seen.note depth data (i + k)) seen
      itemsFrom depth data seen (i + (length + 1)) (items.push (.copy (length + 1) distance))
    | _ => itemsFrom depth data (seen.note depth data i) (i + 1) (items.push (.literal byte))
termination_by data.size - i

/-- The items for some bytes, trying up to `depth` places for each copy. -/
def itemsOf (depth : Nat) (data : Bytes) : List Item :=
  (itemsFrom depth data.toArray ∅ 0 #[]).toList

end FilteredChunks.Deflate
