import FilteredChunks.Deflate.Token

/-!
# Deflating

Bytes are stored as they are at level 0.  At the other levels they are written as items in one block
with the fixed codes, unless that takes more room than storing them.
-/

namespace FilteredChunks.Deflate

/-! ### Stored blocks -/

/-- Most bytes of one stored block. -/
def maxStored : Nat := 65535

/-- One stored block. -/
def storedBlock (isLast : Bool) (bytes : Bytes) : Bytes :=
  (if isLast then 1 else 0) :: Bytes.littleEndian 2 bytes.length ++
    Bytes.littleEndian 2 (maxStored - bytes.length) ++ bytes

/-- Bytes of a stored block that is not the last: a block ends as soon as it has more than 31 KiB. -/
def fullStored : Nat := 31 * 1024 + 1

/-- Stored blocks for all bytes.  Full blocks are never the last; the last one may be empty. -/
def storedBlocks (bytes : Bytes) : Bytes :=
  if bytes.length < fullStored then storedBlock true bytes
  else storedBlock false (bytes.take fullStored) ++ storedBlocks (bytes.drop fullStored)
termination_by bytes.length
decreasing_by
  simp only [List.length_drop, fullStored] at *
  omega

/-! ### Blocks with the fixed codes -/

/-- The lowest `width` bits of a number, lowest first. -/
def lowFirst (width n : Nat) : List Bool := (List.range width).map n.testBit

/-- The fixed code words of the first alphabet by symbol. -/
def literalWords : Array (List Bool) :=
  (codeWords fixedLiteralLengths).foldl (fun words (symbol, word) => words.setIfInBounds symbol word)
    (Array.replicate fixedLiteralLengths.length [])

/-- The fixed code words of the second alphabet by symbol. -/
def distanceWords : Array (List Bool) :=
  (codeWords fixedDistanceLengths).foldl (fun words (symbol, word) => words.setIfInBounds symbol word)
    (Array.replicate fixedDistanceLengths.length [])

/-- The last range that starts at or before `n`, and what is left of `n` in it. -/
def rangeOf (ranges : Array (Nat × Nat)) (n : Nat) : Nat × Nat × Nat :=
  let below := ranges.toList.zipIdx.filter fun entry => entry.1.1 ≤ n
  match below.getLast? with
  | some ((least, extra), index) => (index, n - least, extra)
  | none => (0, 0, 0)

/-- The bits of an item in the fixed codes. -/
def itemBits : Item → List Bool
  | .literal byte => literalWords.getD byte.toNat []
  | .stop => literalWords.getD endOfBlock []
  | .copy length distance =>
    let (lengthIndex, lengthRest, lengthExtra) := rangeOf lengthRanges length
    let (distanceIndex, distanceRest, distanceExtra) := rangeOf distanceRanges distance
    literalWords.getD (firstLength + lengthIndex) [] ++ lowFirst lengthExtra lengthRest ++
      distanceWords.getD distanceIndex [] ++ lowFirst distanceExtra distanceRest

/-- The byte with the given bits, lowest first. -/
def byteOf (bits : List Bool) : UInt8 :=
  UInt8.ofNat (bits.foldr (fun b n => b.toNat + 2 * n) 0)

/-- Bits put into bytes; the last byte is filled up with zeros. -/
def pack : List Bool → Bytes
  | b0 :: b1 :: b2 :: b3 :: b4 :: b5 :: b6 :: b7 :: rest =>
    byteOf [b0, b1, b2, b3, b4, b5, b6, b7] :: pack rest
  | [] => []
  | bits => [byteOf bits]

/-- One last block with the fixed codes. -/
def fixedBlock (items : List Item) : Bytes :=
  pack ([true, true, false] ++ items.flatMap itemBits ++ itemBits .stop)

/-- A compressed stream for some bytes; the level says how many places are tried for a copy. -/
def deflate (level : Nat) (bytes : Bytes) : Bytes :=
  let stored := storedBlocks bytes
  if level = 0 then stored
  else
    let packed := fixedBlock (itemsOf level bytes)
    if packed.length < stored.length then packed else stored

end FilteredChunks.Deflate
