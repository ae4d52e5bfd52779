import FilteredChunks.Deflate.Cursor
import FilteredChunks.Total

/-!
# Huffman codes

A code is given by the length of each symbol's code word, 0 for a symbol without one.  Code words are
dealt in order of length and, for one length, of symbol: each is the number after the one before,
with zeros appended when the length grows.  A tree holds the words for reading.
-/

namespace FilteredChunks.Deflate

/-- The longest code word. -/
def maxCodeLength : Nat := 15

/-- The lowest `width` bits of a number, highest first. -/
def highFirst (width n : Nat) : List Bool :=
  (List.range width).map fun i => n.testBit (width - 1 - i)

/-- The symbols whose code word has the given length. -/
def symbolsOfLength (lengths : List Nat) (length : Nat) : List Nat :=
  (lengths.zipIdx.filter fun entry => entry.1 == length).map (·.2)

/-- Deals code words of `length` bits and more, `count` lengths in all, the first being `code`. -/
def dealWords (lengths : List Nat) : (count length code : Nat) → List (Nat × List Bool)
  | 0, _, _ => []
  | count + 1, length, code =>
    let symbols := symbolsOfLength lengths length
    symbols.zipIdx.map (fun (symbol, i) => (symbol, highFirst length (code + i))) ++
      dealWords lengths count (length + 1) (2 * (code + symbols.length))

/-- The code words of a code, with their symbols. -/
def codeWords (lengths : List Nat) : List (Nat × List Bool) :=
  dealWords lengths maxCodeLength 1 0

/-- How much of all words of full length the code words take up. -/
def coverage (lengths : List Nat) : Nat :=
  total (fun length => if length = 0 then 0 else 1 <<< (maxCodeLength - length)) lengths

/-- A code takes up all words; one with no word at all or a single word of one bit need not, unless it
`mustCover`. -/
def isCode (mustCover : Bool) (lengths : List Nat) : Bool :=
  let used := lengths.filter (· != 0)
  coverage lengths == 1 <<< maxCodeLength || !mustCover && (used == [] || used == [1])

/-- Code words by their bits. -/
inductive CodeTree
  | empty
  | leaf (symbol : Nat)
  | node (zero one : CodeTree)
  deriving DecidableEq

namespace CodeTree

/-- Adds a code word. -/
def insert (tree : CodeTree) : List Bool → Nat → CodeTree
  | [], symbol => leaf symbol
  | bit :: word, symbol =>
    let (zero, one) := match tree with
      | node zero one => (zero, one)
      | _ => (empty, empty)
    if bit then node zero (one.insert word symbol) else node (zero.insert word symbol) one

def ofWords (words : List (Nat × List Bool)) : CodeTree :=
  words.foldl (fun tree (symbol, word) => tree.insert word symbol) empty

/-- Follows bits down to a symbol. -/
def walk : CodeTree → Cursor → Option (Nat × Cursor)
  | empty, _ => none
  | leaf symbol, c => some (symbol, c)
  | node zero one, c =>
    match c.next with
    | none => none
    | some (true, c) => one.walk c
    | some (false, c) => zero.walk c

/-- Reads one symbol, which takes at least one bit. -/
def decode (tree : CodeTree) (c : Cursor) : Option (Nat × Cursor) :=
  match tree with
  | node .. => tree.walk c
  | _ => none

/-- The tree of a code, if the lengths make one. -/
def ofLengths? (mustCover : Bool) (lengths : List Nat) : Option CodeTree :=
  if isCode mustCover lengths then some (ofWords (codeWords lengths)) else none

/-! ### Lemmas -/

theorem size_of_walk {tree : CodeTree} {c c' : Cursor} {symbol : Nat}
    (h : tree.walk c = some (symbol, c')) : c'.size ≤ c.size := by
  induction tree generalizing c with
  | empty => simp [walk] at h
  | leaf s =>
    simp only [walk, Option.some.injEq, Prod.mk.injEq] at h
    exact h.2 ▸ Nat.le_refl _
  | node zero one ih0 ih1 =>
    simp only [walk] at h
    split at h
    · contradiction
    · next h1 =>
      have := Cursor.size_of_next h1
      have := ih1 h
      omega
    · next h1 =>
      have := Cursor.size_of_next h1
      have := ih0 h
      omega

theorem size_of_decode {tree : CodeTree} {c c' : Cursor} {symbol : Nat}
    (h : tree.decode c = some (symbol, c')) : c'.size < c.size := by
  cases tree with
  | empty => simp [decode] at h
  | leaf s => simp [decode] at h
  | node zero one =>
    simp only [decode, walk] at h
    split at h
    · contradiction
    · next h1 =>
      have := Cursor.size_of_next h1
      have := size_of_walk h
      omega
    · next h1 =>
      have := Cursor.size_of_next h1
      have := size_of_walk h
      omega

end CodeTree

end FilteredChunks.Deflate
