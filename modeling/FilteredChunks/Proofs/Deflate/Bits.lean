import FilteredChunks.Deflate.Compress
import Mathlib.Algebra.Group.Nat.Defs
import Mathlib.Tactic.Common

/-!
# Bits are read as they were packed

A cursor is *at* some bits (`Cursor.At`) if those are the bits it still has to read and less than a byte
of them is pending.  The readers of bits and numbers go on from there (`At.next`, `At.number`), and
`align` drops what is left of the current byte (`At.align`).  Packed bits are read back, followed by
less than a byte of zeros (`bits_pack`).
-/

namespace FilteredChunks.Deflate

/-! ### Bits of numbers -/

theorem lowFirst_succ (width n : Nat) :
    lowFirst (width + 1) n = n.testBit 0 :: lowFirst width (n / 2) := by
  rw [lowFirst, List.range_succ_eq_map, List.map_cons, List.map_map, lowFirst]
  congr 1
  exact List.map_congr_left fun i _ => Nat.testBit_succ n i

theorem lowFirst_zero_right (width : Nat) : lowFirst width 0 = List.replicate width false := by
  refine List.ext_getElem (by simp [lowFirst]) fun i _ _ => ?_
  simp [lowFirst]

theorem bitsOf_eq (byte : UInt8) : bitsOf byte = lowFirst 8 byte.toNat := rfl

theorem length_bitsOf (byte : UInt8) : (bitsOf byte).length = 8 := rfl

theorem toNat_testBit_add (n : Nat) : (n.testBit 0).toNat + 2 * (n / 2) = n := by
  rw [Nat.testBit_zero]
  rcases Nat.mod_two_eq_zero_or_one n with h | h
  all_goals
    rw [h]
    simp
    omega

/-- The number with the given bits, lowest first. -/
def numberOf (bits : List Bool) : Nat := bits.foldr (fun b n => b.toNat + 2 * n) 0

theorem numberOf_cons (b : Bool) (bits : List Bool) :
    numberOf (b :: bits) = b.toNat + 2 * numberOf bits := rfl

theorem numberOf_lt (bits : List Bool) : numberOf bits < 2 ^ bits.length := by
  induction bits with
  | nil => decide
  | cons b bits ih =>
    have := Bool.toNat_lt b
    rw [numberOf_cons, List.length_cons, Nat.pow_succ]
    omega

/-- The bits of a number are those it was made of, and zeros. -/
theorem lowFirst_numberOf {bits : List Bool} {width : Nat} (h : bits.length ≤ width) :
    lowFirst width (numberOf bits) = bits ++ List.replicate (width - bits.length) false := by
  induction bits generalizing width with
  | nil => exact lowFirst_zero_right width
  | cons b bits ih =>
    obtain ⟨width, rfl⟩ := Nat.exists_eq_add_one_of_ne_zero (Nat.ne_of_gt (Nat.lt_of_lt_of_le
      (Nat.succ_pos bits.length) h))
    have hbit : (numberOf (b :: bits)).testBit 0 = b := by
      rw [numberOf_cons, Nat.testBit_zero]
      cases b <;> simp
    have hrest : numberOf (b :: bits) / 2 = numberOf bits := by
      have := Bool.toNat_lt b
      rw [numberOf_cons]
      omega
    rw [lowFirst_succ, hbit, hrest, ih (Nat.le_of_succ_le_succ h), List.length_cons,
      Nat.add_sub_add_right]
    rfl

theorem bitsOf_byteOf {bits : List Bool} (h : bits.length ≤ 8) :
    bitsOf (byteOf bits) = bits ++ List.replicate (8 - bits.length) false := by
  have hlt : numberOf bits < 256 :=
    Nat.lt_of_lt_of_le (numberOf_lt bits) (Nat.pow_le_pow_right (by decide) h : _ ≤ 2 ^ 8)
  have hbyte : (byteOf bits).toNat = numberOf bits :=
    UInt8.toNat_ofNat_of_lt' hlt
  rw [bitsOf_eq, hbyte, lowFirst_numberOf h]

theorem numberOf_lowFirst {width n : Nat} (hn : n < 2 ^ width) : numberOf (lowFirst width n) = n := by
  induction width generalizing n with
  | zero =>
    obtain rfl := Nat.lt_one_iff.1 hn
    rfl
  | succ width ih =>
    rw [Nat.pow_succ] at hn
    rw [lowFirst_succ, numberOf_cons, ih (by omega), toNat_testBit_add]

theorem bitsOf_injective {a b : UInt8} (h : bitsOf a = bitsOf b) : a = b := by
  have hnumber := congrArg numberOf h
  rw [bitsOf_eq, bitsOf_eq, numberOf_lowFirst a.toNat_lt, numberOf_lowFirst b.toNat_lt] at hnumber
  exact UInt8.toNat_inj.1 hnumber

/-! ### Bytes -/

theorem length_flatMap_bitsOf (bytes : Bytes) : (bytes.flatMap bitsOf).length = 8 * bytes.length := by
  induction bytes with
  | nil => rfl
  | cons byte bytes ih =>
    rw [List.flatMap_cons, List.length_append, length_bitsOf, ih, List.length_cons]
    omega

theorem flatMap_bitsOf_injective {xs ys : Bytes} (h : xs.flatMap bitsOf = ys.flatMap bitsOf) :
    xs = ys := by
  induction xs generalizing ys with
  | nil =>
    have hlength := congrArg List.length h
    rw [length_flatMap_bitsOf, length_flatMap_bitsOf] at hlength
    exact (List.length_eq_zero_iff.1 (Nat.eq_of_mul_eq_mul_left (by decide) hlength).symm).symm
  | cons x xs ih =>
    cases ys with
    | nil => cases h
    | cons y ys =>
      rw [List.flatMap_cons, List.flatMap_cons] at h
      obtain ⟨hbits, hrest⟩ := List.append_inj h rfl
      rw [bitsOf_injective hbits, ih hrest]

/-- **Packed bits are there**, and after them less than a byte of others. -/
theorem bits_pack (bits : List Bool) :
    ∃ padding, (pack bits).flatMap bitsOf = bits ++ padding ∧ padding.length < 8 := by
  fun_induction pack bits with
  | case1 b0 b1 b2 b3 b4 b5 b6 b7 rest ih =>
    obtain ⟨padding, hbits, hlt⟩ := ih
    refine ⟨padding, ?_, hlt⟩
    rw [List.flatMap_cons, hbits, bitsOf_byteOf (by simp)]
    rfl
  | case2 => exact ⟨[], rfl, by decide⟩
  | case3 bits hfew hne =>
    have hlength : bits.length < 8 := by
      match bits, hfew with
      | [], _ | [_], _ | [_, _], _ | [_, _, _], _ | [_, _, _, _], _ | [_, _, _, _, _], _
      | [_, _, _, _, _, _], _ | [_, _, _, _, _, _, _], _ => simp
      | b0 :: b1 :: b2 :: b3 :: b4 :: b5 :: b6 :: b7 :: rest, hfew =>
        exact (hfew b0 b1 b2 b3 b4 b5 b6 b7 rest rfl).elim
    have hpos : 0 < bits.length := List.length_pos_iff.2 hne
    refine ⟨List.replicate (8 - bits.length) false, ?_, ?_⟩
    · rw [List.flatMap_singleton, bitsOf_byteOf (Nat.le_of_lt hlength)]
    · rw [List.length_replicate]
      omega

/-! ### Cursors -/

namespace Cursor

/-- The bits that a cursor still has to read, of which less than a byte is pending. -/
structure At (c : Cursor) (bits : List Bool) : Prop where
  bits_eq : c.bits = bits
  pending_lt : c.pending.length < 8

theorem at_ofBytes (bytes : Bytes) : (ofBytes bytes).At (bytes.flatMap bitsOf) :=
  ⟨rfl, Nat.succ_pos 7⟩

variable {c : Cursor} {bits : List Bool}

theorem At.next {b : Bool} (h : c.At (b :: bits)) : ∃ c', c.next = some (b, c') ∧ c'.At bits := by
  obtain ⟨pending, rest⟩ := c
  obtain ⟨hbits, hlt⟩ := h
  cases pending with
  | cons b' pending =>
    obtain ⟨rfl, htail⟩ := List.cons.inj hbits
    exact ⟨⟨pending, rest⟩, rfl, htail, Nat.lt_of_succ_lt hlt⟩
  | nil =>
    cases rest with
    | nil => cases hbits
    | cons byte rest =>
      obtain ⟨rfl, htail⟩ := List.cons.inj hbits
      exact ⟨_, rfl, htail, Nat.lt_succ_self 7⟩

theorem At.number {width n : Nat} (hn : n < 2 ^ width) (h : c.At (lowFirst width n ++ bits)) :
    ∃ c', c.number width = some (n, c') ∧ c'.At bits := by
  induction width generalizing n c with
  | zero =>
    obtain rfl := Nat.lt_one_iff.1 hn
    exact ⟨c, rfl, h⟩
  | succ width ih =>
    rw [lowFirst_succ, List.cons_append] at h
    obtain ⟨c₁, hnext, h₁⟩ := h.next
    rw [Nat.pow_succ] at hn
    obtain ⟨c₂, hnumber, h₂⟩ := ih (by omega) h₁
    refine ⟨c₂, ?_, h₂⟩
    rw [Cursor.number, hnext]
    dsimp only
    rw [hnumber]
    dsimp only
    rw [toNat_testBit_add]

theorem At.align {padding : List Bool} {bytes : Bytes} (hpadding : padding.length < 8)
    (h : c.At (padding ++ bytes.flatMap bitsOf)) : c.align = ofBytes bytes := by
  obtain ⟨pending, rest⟩ := c
  obtain ⟨hbits, hlt⟩ := h
  have hbits : pending ++ rest.flatMap bitsOf = padding ++ bytes.flatMap bitsOf := hbits
  have hlength := congrArg List.length hbits
  rw [List.length_append, List.length_append, length_flatMap_bitsOf, length_flatMap_bitsOf] at hlength
  dsimp only at hlt
  obtain ⟨-, hrest⟩ := List.append_inj hbits (by omega)
  rw [flatMap_bitsOf_injective hrest]
  rfl

theorem takeBytes_append {n : Nat} {front : Bytes} (h : front.length = n) (rest : Bytes) :
    (ofBytes (front ++ rest)).takeBytes n = some (front, ofBytes rest) := by
  subst h
  simp [takeBytes, ofBytes, Bytes.splitAt?]

end Cursor

end FilteredChunks.Deflate
