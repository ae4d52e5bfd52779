import FilteredChunks.Bytes

/-!
# Text in byte strings

Bytes are read as UTF-8.  Where they are not, each longest start of a character that cannot be
completed, and each byte that starts none, is read as the replacement character.
-/

namespace FilteredChunks.Utf8

/-- A character of which some bytes have been read: the bits so far, the number of bytes owed, and the
range of the next one. -/
structure Partial where
  value : Nat
  owed : Nat
  low : Nat
  high : Nat
  deriving DecidableEq

/-- Stands for what cannot be read. -/
def replacement : Char := Char.ofNat 0xfffd

/-- Reads the first byte of a character: what can be told at once, and what is owed. -/
def first (b : Nat) : List Char × Option Partial :=
  if b < 0x80 then ([Char.ofNat b], none)
  else if b < 0xc2 then ([replacement], none)
  else if b < 0xe0 then ([], some ⟨b - 0xc0, 1, 0x80, 0xbf⟩)
  else if b < 0xf0 then
    ([], some ⟨b - 0xe0, 2, if b = 0xe0 then 0xa0 else 0x80, if b = 0xed then 0x9f else 0xbf⟩)
  else if b < 0xf5 then
    ([], some ⟨b - 0xf0, 3, if b = 0xf0 then 0x90 else 0x80, if b = 0xf4 then 0x8f else 0xbf⟩)
  else ([replacement], none)

/-- Reads one more byte. -/
def next (state : Option Partial) (b : Nat) : List Char × Option Partial :=
  match state with
  | none => first b
  | some p =>
    if p.low ≤ b ∧ b ≤ p.high then
      let value := p.value * 64 + b % 64
      if p.owed = 1 then ([Char.ofNat value], none) else ([], some ⟨value, p.owed - 1, 0x80, 0xbf⟩)
    else
      let (chars, state) := first b
      (replacement :: chars, state)

/-- Reads bytes after a character of which some have been read. -/
def decodeFrom : Option Partial → Bytes → List Char
  | none, [] => []
  | some _, [] => [replacement]
  | state, b :: rest =>
    let (chars, state) := next state b.toNat
    chars ++ decodeFrom state rest

/-- The text of a byte string. -/
def decode (bytes : Bytes) : String := String.ofList (decodeFrom none bytes)

end FilteredChunks.Utf8
