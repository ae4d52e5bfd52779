/-!
# Byte strings

Byte strings are lists of bytes.  Numbers stored in them are little endian: `littleEndian` writes the
low bytes of a number, `fromLittleEndian` reads them back.
-/

namespace FilteredChunks

/-- A byte string. -/
abbrev Bytes := List UInt8

namespace Bytes

/-- Bytes of the longest buffer there can be: a length has 63 bits. -/
def maxLength : Nat := UInt64.size / 2 - 1

/-- The `width` low bytes of a number, least significant first. -/
def littleEndian : (width : Nat) → Nat → Bytes
  | 0, _ => []
  | width + 1, n => UInt8.ofNat n :: littleEndian width (n / 256)

/-- The number whose bytes are given, least significant first. -/
def fromLittleEndian : Bytes → Nat
  | [] => 0
  | b :: bs => b.toNat + 256 * fromLittleEndian bs

/-- How many numbers a number of bytes can hold. -/
def span : (width : Nat) → Nat
  | 0 => 1
  | width + 1 => 256 * span width

/-- The first `n` bytes and the rest, if there are that many. -/
def splitAt? (n : Nat) (bs : Bytes) : Option (Bytes × Bytes) :=
  let front := bs.take n
  if front.length = n then some (front, bs.drop n) else none

/-- The bytes from position `start` up to `stop`, if all these positions are there. -/
def slice? (bs : Bytes) (start stop : Nat) : Option Bytes :=
  if start ≤ stop ∧ stop ≤ bs.length then some ((bs.take stop).drop start) else none

/-- Puts `new` over the bytes from position `at_` on.  If there are none, `new` is appended, after
zeros that fill up to the position. -/
def overwrite (bs : Bytes) (at_ : Nat) (new : Bytes) : Bytes :=
  match bs.drop at_ with
  | [] => bs ++ (List.replicate (at_ - bs.length) 0 ++ new)
  | old => bs.take at_ ++ (new ++ old.drop new.length)

/-! ### Lemmas -/

theorem slice?_of_le {bs : Bytes} {start stop : Nat} (h : start ≤ stop) (h' : stop ≤ bs.length) :
    bs.slice? start stop = some ((bs.take stop).drop start) := if_pos ⟨h, h'⟩

@[simp]
theorem length_littleEndian (width n : Nat) : (littleEndian width n).length = width := by
  induction width generalizing n with
  | zero => rfl
  | succ width ih => simp [littleEndian, ih]

/-- Reading back what was written keeps the number modulo the width. -/
theorem fromLittleEndian_littleEndian (width n : Nat) :
    fromLittleEndian (littleEndian width n) = n % span width := by
  induction width generalizing n with
  | zero => simp [littleEndian, fromLittleEndian, span, Nat.mod_one]
  | succ width ih =>
    simp only [littleEndian, fromLittleEndian, ih, span, UInt8.toNat_ofNat']
    exact (Nat.mod_mul).symm

theorem fromLittleEndian_lt (bs : Bytes) : fromLittleEndian bs < span bs.length := by
  induction bs with
  | nil => simp [fromLittleEndian, span]
  | cons b bs ih =>
    have hb := b.toNat_lt
    simp only [fromLittleEndian, List.length_cons, span]
    omega

/-- Bytes read as a number are written back unchanged. -/
theorem littleEndian_fromLittleEndian (bs : Bytes) :
    littleEndian bs.length (fromLittleEndian bs) = bs := by
  induction bs with
  | nil => rfl
  | cons b bs ih =>
    have hb := b.toNat_lt
    have h1 : UInt8.ofNat (b.toNat + 256 * fromLittleEndian bs) = b := by
      apply UInt8.toNat_inj.mp
      simp only [UInt8.toNat_ofNat']
      omega
    have h2 : (b.toNat + 256 * fromLittleEndian bs) / 256 = fromLittleEndian bs := by omega
    simp [littleEndian, fromLittleEndian, h1, h2, ih]

end Bytes

end FilteredChunks
