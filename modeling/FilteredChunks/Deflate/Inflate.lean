import FilteredChunks.Deflate.Symbol

/-!
# Inflating

A compressed stream is a sequence of blocks; a block holds its bytes as they are, or as symbols of a
fixed code or of a code of its own.  Copies look back into what was written so far, before which
everything reads as zero.  A stream that breaks a rule, or ends before its last block does, has no
contents.
-/

namespace FilteredChunks.Deflate

/-- The byte `distance` places back. -/
def byteBack (out : Array UInt8) (distance : Nat) : UInt8 :=
  if distance ≤ out.size then out.getD (out.size - distance) 0 else 0

/-- Appends bytes one by one, each the byte `distance` places back. -/
def copyBack (distance : Nat) : (count : Nat) → Array UInt8 → Array UInt8
  | 0, out => out
  | count + 1, out => copyBack distance count (out.push (byteBack out distance))

/-- Reads a number of a range given by its least number and its extra bits. -/
def readRange (ranges : Array (Nat × Nat)) (index : Nat) (c : Cursor) : Option (Nat × Cursor) :=
  ranges[index]?.bind fun (least, extra) =>
    (c.number extra).map fun (n, c) => (least + n, c)

/-- Reads length and distance of a copy after its length symbol. -/
def readCopy (distances : CodeTree) (symbol : Nat) (c : Cursor) : Option ((Nat × Nat) × Cursor) :=
  (readRange lengthRanges (symbol - firstLength) c).bind fun (length, c) =>
    (distances.decode c).bind fun (symbol, c) =>
      (readRange distanceRanges symbol c).map fun (distance, c) => ((length, distance), c)

theorem size_of_readRange {ranges : Array (Nat × Nat)} {index n : Nat} {c c' : Cursor}
    (h : readRange ranges index c = some (n, c')) : c'.size ≤ c.size := by
  simp only [readRange, Option.bind_eq_some_iff, Option.map_eq_some_iff, Prod.mk.injEq] at h
  obtain ⟨_, -, ⟨_, d⟩, h1, -, rfl⟩ := h
  have := Cursor.size_of_number h1
  dsimp only
  omega

theorem size_of_readCopy {distances : CodeTree} {symbol : Nat} {copy : Nat × Nat} {c c' : Cursor}
    (h : readCopy distances symbol c = some (copy, c')) : c'.size ≤ c.size := by
  simp only [readCopy, Option.bind_eq_some_iff, Option.map_eq_some_iff, Prod.mk.injEq] at h
  obtain ⟨⟨_, c1⟩, h1, ⟨_, c2⟩, h2, ⟨_, c3⟩, h3, -, rfl⟩ := h
  have := size_of_readRange h1
  have := CodeTree.size_of_decode h2
  have := size_of_readRange h3
  dsimp only at *
  omega

/-- What the symbols of a block stand for. -/
inductive Item
  | literal (byte : UInt8)
  | copy (length distance : Nat)
  | stop
  deriving DecidableEq

/-- Reads one item. -/
def readItem (literals distances : CodeTree) (c : Cursor) : Option (Item × Cursor) :=
  (literals.decode c).bind fun (symbol, c) =>
    if symbol < endOfBlock then some (.literal (UInt8.ofNat symbol), c)
    else if symbol = endOfBlock then some (.stop, c)
    else (readCopy distances symbol c).map fun ((length, distance), c) => (.copy length distance, c)

theorem size_of_readItem {literals distances : CodeTree} {item : Item} {c c' : Cursor}
    (h : readItem literals distances c = some (item, c')) : c'.size < c.size := by
  simp only [readItem, Option.bind_eq_some_iff] at h
  obtain ⟨⟨symbol, c1⟩, h1, h⟩ := h
  have := CodeTree.size_of_decode h1
  split at h
  · simp only [Option.some.injEq, Prod.mk.injEq] at h
    rw [← h.2]
    exact this
  split at h
  · simp only [Option.some.injEq, Prod.mk.injEq] at h
    rw [← h.2]
    exact this
  · simp only [Option.map_eq_some_iff, Prod.mk.injEq] at h
    obtain ⟨⟨_, c2⟩, h2, -, rfl⟩ := h
    have := size_of_readCopy h2
    dsimp only at *
    omega

/-- Reads the items of a block up to its end. -/
def inflateItems (literals distances : CodeTree) (c : Cursor) (out : Array UInt8) :
    Option (Array UInt8 × Cursor) :=
  match h : readItem literals distances c with
  | none => none
  | some (.stop, rest) => some (out, rest)
  | some (.literal byte, rest) =>
    have := size_of_readItem h
    inflateItems literals distances rest (out.push byte)
  | some (.copy length distance, rest) =>
    have := size_of_readItem h
    inflateItems literals distances rest (copyBack distance length out)
termination_by c.size

/-- What a code-length symbol stands for: a length, given how often, or none if there is no length to
repeat. -/
def readLengthRun (symbol : Nat) (previous : Option Nat) (c : Cursor) :
    Option ((Nat × Nat) × Cursor) :=
  if symbol < 16 then some ((1, symbol), c)
  else if symbol = 16 then
    match previous, c.number 2 with
    | some length, some (n, c) => some ((3 + n, length), c)
    | _, _ => none
  else if symbol = 17 then (c.number 3).map fun (n, c) => ((3 + n, 0), c)
  else (c.number 7).map fun (n, c) => ((11 + n, 0), c)

theorem size_of_readLengthRun {symbol : Nat} {previous : Option Nat} {run : Nat × Nat}
    {c c' : Cursor} (h : readLengthRun symbol previous c = some (run, c')) : c'.size ≤ c.size := by
  simp only [readLengthRun] at h
  split at h
  · simp only [Option.some.injEq, Prod.mk.injEq] at h
    exact h.2 ▸ Nat.le_refl _
  · split at h
    · split at h
      · next h1 =>
        simp only [Option.some.injEq, Prod.mk.injEq] at h
        have := Cursor.size_of_number h1
        rw [← h.2]
        omega
      · contradiction
    · split at h
      all_goals
        simp only [Option.map_eq_some_iff, Prod.mk.injEq] at h
        obtain ⟨⟨m, d⟩, h1, -, rfl⟩ := h
        have := Cursor.size_of_number h1
        dsimp only
        omega

/-- Reads `count` code lengths; `lengths` are those read so far, the last first.  A run must not go
past the end. -/
def readLengths (tree : CodeTree) (count : Nat) (c : Cursor) (lengths : List Nat) :
    Option (List Nat × Cursor) :=
  if lengths.length = count then some (lengths.reverse, c)
  else if count < lengths.length then none
  else
    match h : tree.decode c with
    | none => none
    | some (symbol, rest) =>
      have := CodeTree.size_of_decode h
      match h' : readLengthRun symbol lengths.head? rest with
      | none => none
      | some ((times, length), rest') =>
        have := size_of_readLengthRun h'
        readLengths tree count rest' (List.replicate times length ++ lengths)
termination_by c.size

theorem size_of_readLengths {tree : CodeTree} {count : Nat} {c c' : Cursor} {ls ls' : List Nat}
    (h : readLengths tree count c ls = some (ls', c')) : c'.size ≤ c.size := by
  fun_induction readLengths tree count c ls with
  | case1 =>
    simp only [Option.some.injEq, Prod.mk.injEq] at h
    exact h.2 ▸ Nat.le_refl _
  | case2 => contradiction
  | case3 => contradiction
  | case4 => contradiction
  | case5 c ls _ _ symbol rest h1 _ times length rest' h2 _ ih =>
    have := ih h
    omega

/-- Reads three-bit lengths of the code for code lengths, in their order. -/
def readCodeLengthLengths : List Nat → Cursor → Option (List (Nat × Nat) × Cursor)
  | [], c => some ([], c)
  | symbol :: order, c =>
    (c.number 3).bind fun (length, c) =>
      (readCodeLengthLengths order c).map fun (lengths, c) => ((symbol, length) :: lengths, c)

theorem size_of_readCodeLengthLengths {order : List Nat} {ls : List (Nat × Nat)} {c c' : Cursor}
    (h : readCodeLengthLengths order c = some (ls, c')) : c'.size ≤ c.size := by
  induction order generalizing c c' ls with
  | nil =>
    simp only [readCodeLengthLengths, Option.some.injEq, Prod.mk.injEq] at h
    exact h.2 ▸ Nat.le_refl _
  | cons symbol order ih =>
    simp only [readCodeLengthLengths, Option.bind_eq_some_iff, Option.map_eq_some_iff,
      Prod.mk.injEq] at h
    obtain ⟨⟨_, c1⟩, h1, ⟨_, c2⟩, h2, -, rfl⟩ := h
    have := Cursor.size_of_number h1
    have := ih h2
    dsimp only at *
    omega

/-- The lengths of all symbols below `count`, where some are given and the others are 0. -/
def spreadLengths (count : Nat) (given : List (Nat × Nat)) : List Nat :=
  (List.range count).map fun symbol => ((given.find? fun g => g.1 == symbol).map (·.2)).getD 0

/-- Reads the lengths of both alphabets, `literals` and `distances` of them, written in a code whose
first `given` lengths come before. -/
def readAlphabets (literals distances given : Nat) (c : Cursor) :
    Option ((CodeTree × CodeTree) × Cursor) :=
  (readCodeLengthLengths (codeLengthOrder.take given) c).bind fun (given, c) =>
    (CodeTree.ofLengths? true (spreadLengths codeLengthOrder.length given)).bind fun tree =>
      (readLengths tree (literals + distances) c []).bind fun (lengths, c) =>
        (CodeTree.ofLengths? false (lengths.take literals)).bind fun first =>
          (CodeTree.ofLengths? false (lengths.drop literals)).map fun second =>
            ((first, second), c)

/-- Reads the codes that a block brings along, after the numbers of their lengths. -/
def readCodes (c : Cursor) : Option ((CodeTree × CodeTree) × Cursor) :=
  (c.number 5).bind fun (literals, c) =>
    (c.number 5).bind fun (distances, c) =>
      (c.number 4).bind fun (given, c) =>
        if 286 < 257 + literals ∨ 30 < 1 + distances then none
        else readAlphabets (257 + literals) (1 + distances) (4 + given) c

/-- The codes of a block that brings none along. -/
def fixedCodes : CodeTree × CodeTree :=
  (.ofWords (codeWords fixedLiteralLengths), .ofWords (codeWords fixedDistanceLengths))

/-- Reads a block whose bytes are stored as they are: their number, its complement, the bytes. -/
def inflateStored (c : Cursor) (out : Array UInt8) : Option (Array UInt8 × Cursor) :=
  (c.align.takeBytes 4).bind fun (header, c) =>
    let length := Bytes.fromLittleEndian (header.take 2)
    if length + Bytes.fromLittleEndian (header.drop 2) ≠ 65535 then none
    else (c.takeBytes length).map fun (bytes, c) => (out ++ bytes.toArray, c)

/-- Reads a block after its first bit, which tells whether it is the last. -/
def inflateBlock (c : Cursor) (out : Array UInt8) : Option (Array UInt8 × Cursor) :=
  (c.number 2).bind fun (kind, c) =>
    if kind = 0 then inflateStored c out
    else if kind = 1 then inflateItems fixedCodes.1 fixedCodes.2 c out
    else if kind = 2 then
      (readCodes c).bind fun (codes, c) => inflateItems codes.1 codes.2 c out
    else none

theorem size_of_inflateItems {literals distances : CodeTree} {c c' : Cursor}
    {out out' : Array UInt8} (h : inflateItems literals distances c out = some (out', c')) :
    c'.size ≤ c.size := by
  fun_induction inflateItems literals distances c out with
  | case1 => contradiction
  | case2 c out rest h1 =>
    simp only [Option.some.injEq, Prod.mk.injEq] at h
    have := size_of_readItem h1
    rw [← h.2]
    omega
  | case3 c out byte rest h1 _ ih =>
    have := ih h
    omega
  | case4 c out length distance rest h1 _ ih =>
    have := ih h
    omega

theorem size_of_readAlphabets {literals distances given : Nat} {c c' : Cursor}
    {codes : CodeTree × CodeTree} (h : readAlphabets literals distances given c = some (codes, c')) :
    c'.size ≤ c.size := by
  simp only [readAlphabets, Option.bind_eq_some_iff, Option.map_eq_some_iff, Prod.mk.injEq] at h
  obtain ⟨⟨_, c1⟩, h1, _, -, ⟨_, c2⟩, h2, _, -, _, -, -, rfl⟩ := h
  have := size_of_readCodeLengthLengths h1
  have := size_of_readLengths h2
  dsimp only at *
  omega

theorem size_of_readCodes {c c' : Cursor} {codes : CodeTree × CodeTree}
    (h : readCodes c = some (codes, c')) : c'.size ≤ c.size := by
  simp only [readCodes, Option.bind_eq_some_iff] at h
  obtain ⟨⟨_, c1⟩, h1, ⟨_, c2⟩, h2, ⟨_, c3⟩, h3, h⟩ := h
  split at h
  · contradiction
  · have := Cursor.size_of_number h1
    have := Cursor.size_of_number h2
    have := Cursor.size_of_number h3
    have := size_of_readAlphabets h
    dsimp only at *
    omega

theorem size_of_inflateStored {c c' : Cursor} {out out' : Array UInt8}
    (h : inflateStored c out = some (out', c')) : c'.size ≤ c.size := by
  simp only [inflateStored, Option.bind_eq_some_iff] at h
  obtain ⟨⟨_, c1⟩, h1, h⟩ := h
  split at h
  · contradiction
  · simp only [Option.map_eq_some_iff, Prod.mk.injEq] at h
    obtain ⟨⟨_, c2⟩, h2, -, rfl⟩ := h
    have := Cursor.size_of_takeBytes h1
    have := Cursor.size_of_takeBytes h2
    have := Cursor.size_align_le c
    dsimp only at *
    omega

theorem size_of_inflateBlock {c c' : Cursor} {out out' : Array UInt8}
    (h : inflateBlock c out = some (out', c')) : c'.size ≤ c.size := by
  simp only [inflateBlock, Option.bind_eq_some_iff] at h
  obtain ⟨⟨kind, c1⟩, h1, h⟩ := h
  have := Cursor.size_of_number h1
  split at h
  · have := size_of_inflateStored h
    dsimp only at *
    omega
  split at h
  · have := size_of_inflateItems h
    dsimp only at *
    omega
  split at h
  · simp only [Option.bind_eq_some_iff] at h
    obtain ⟨⟨_, c2⟩, h2, h⟩ := h
    have := size_of_readCodes h2
    have := size_of_inflateItems h
    dsimp only at *
    omega
  · contradiction

/-- Reads blocks up to the last one. -/
def inflateBlocks (c : Cursor) (out : Array UInt8) : Option (Array UInt8 × Cursor) :=
  match h : c.next with
  | none => none
  | some (isLast, rest) =>
    match h' : inflateBlock rest out with
    | none => none
    | some (out', rest') =>
      have := Cursor.size_of_next h
      have := size_of_inflateBlock h'
      if isLast then some (out', rest') else inflateBlocks rest' out'
termination_by c.size

end FilteredChunks.Deflate
