import FilteredChunks.Deflate.Token
import Mathlib.Tactic.Common

/-!
# Items stand for the bytes they were made from

A copy is only taken where the bytes were compared, so writing it goes on with the data
(`copyBack_take`).  Whatever places were tried, writing all items gives the data back
(`writeItems_itemsOf`).
-/

namespace FilteredChunks.Deflate

/-! ### Writing items -/

/-- The bytes written after an item. -/
def Item.write (out : Array UInt8) : Item → Array UInt8
  | literal byte => out.push byte
  | copy length distance => copyBack distance length out
  | stop => out

/-- The bytes written after some items. -/
def writeItems (items : List Item) (out : Array UInt8) : Array UInt8 := items.foldl Item.write out

/-- An item that a block can have before its end. -/
def Item.Fits : Item → Prop
  | literal _ => True
  | copy length distance =>
    minCopy ≤ length ∧ length ≤ maxCopy ∧ 0 < distance ∧ distance ≤ maxDistance
  | stop => False

/-- From `i` on the data goes on like the data `distance` places back, for `length` bytes. -/
structure Repeats (data : Array UInt8) (i length distance : Nat) : Prop where
  distance_pos : 0 < distance
  distance_le : distance ≤ i
  agrees : ∀ k < length, ∃ byte, data[i + k]? = some byte ∧ data[i - distance + k]? = some byte

variable {data : Array UInt8}

theorem agreement_spec (data : Array UInt8) (limit i j : Nat) :
    agreement data limit i j ≤ limit ∧ ∀ k < agreement data limit i j,
      ∃ byte, data[i + k]? = some byte ∧ data[j + k]? = some byte := by
  induction limit generalizing i j with
  | zero => exact ⟨Nat.le_refl _, fun k hk => absurd hk (Nat.not_lt_zero k)⟩
  | succ limit ih =>
    rw [agreement]
    split
    · next a b ha hb =>
      split
      · next hab =>
        obtain ⟨hle, hagrees⟩ := ih (i + 1) (j + 1)
        refine ⟨Nat.succ_le_succ hle, fun k hk => ?_⟩
        cases k with
        | zero => exact ⟨a, ha, hab ▸ hb⟩
        | succ k =>
          have hnext := hagrees k (Nat.lt_of_succ_lt_succ hk)
          rwa [Nat.add_right_comm i 1 k, Nat.add_right_comm j 1 k] at hnext
      · exact ⟨Nat.zero_le _, fun k hk => absurd hk (Nat.not_lt_zero k)⟩
    · exact ⟨Nat.zero_le _, fun k hk => absurd hk (Nat.not_lt_zero k)⟩

theorem take_succ_of_getElem? {i : Nat} {byte : UInt8} (h : data[i]? = some byte) :
    data.toList.take (i + 1) = data.toList.take i ++ [byte] := by
  rw [List.take_add_one, Array.getElem?_toList, h]
  rfl

/-- **Writing a copy goes on with the data.** -/
theorem copyBack_take {distance length i : Nat} (h : Repeats data i length distance)
    {out : Array UInt8} (hout : out.toList = data.toList.take i) :
    (copyBack distance length out).toList = data.toList.take (i + length) := by
  induction length generalizing i out with
  | zero => exact hout
  | succ length ih =>
    obtain ⟨hpos, hle, hagrees⟩ := h
    obtain ⟨byte, hhere, hback⟩ := hagrees 0 (Nat.succ_pos _)
    rw [Nat.add_zero] at hhere hback
    have hsize : out.size = i := by
      obtain ⟨hlt, -⟩ := Array.getElem?_eq_some_iff.1 hhere
      rw [← Array.length_toList, hout, List.length_take, Array.length_toList]
      omega
    have hbyte : byteBack out distance = byte := by
      have hget : out[i - distance]? = some byte := by
        rw [← Array.getElem?_toList, hout, List.getElem?_take_of_lt (by omega),
          Array.getElem?_toList, hback]
      rw [byteBack, hsize, if_pos hle, Array.getD_eq_getD_getElem?, hget]
      rfl
    have hout' : (out.push (byteBack out distance)).toList = data.toList.take (i + 1) := by
      rw [Array.toList_push, hout, hbyte, take_succ_of_getElem? hhere]
    have hrest : Repeats data (i + 1) length distance := by
      refine ⟨hpos, by omega, fun k hk => ?_⟩
      have hnext := hagrees (k + 1) (Nat.succ_lt_succ hk)
      rwa [show i + (k + 1) = i + 1 + k by omega,
        show i - distance + (k + 1) = i + 1 - distance + k by omega] at hnext
    rw [copyBack, ih hrest hout']
    congr 1
    omega

/-! ### Finding items -/

theorem longestCopy_spec {i length distance : Nat} {guesses : List Nat}
    (h : longestCopy data i guesses = some (length, distance)) :
    (Item.copy length distance).Fits ∧ Repeats data i length distance := by
  refine List.foldlRecOn (motive := fun best => ∀ l d, best = some (l, d) →
    (Item.copy l d).Fits ∧ Repeats data i l d) guesses _ ?_ ?_ length distance h
  · exact fun l d hnone => nomatch hnone
  intro best hbest j _ l d hsome
  split at hsome
  · next hj =>
    dsimp only at hsome
    split at hsome
    · next hlength =>
      cases hsome
      obtain ⟨hle, hagrees⟩ := agreement_spec data maxCopy i j
      refine ⟨⟨hlength.1, hle, by omega, hj.2⟩, by omega, by omega, ?_⟩
      rwa [show i - (i - j) = j by omega]
    · exact hbest l d hsome
  · exact hbest l d hsome

/-- The items found from `i` on can be written, and writing them after the first `i` bytes gives the
data. -/
theorem itemsFrom_spec (depth : Nat) (data : Array UInt8) (seen : Positions) (i : Nat)
    (items : Array Item) :
    ∃ new, itemsFrom depth data seen i items = items ++ new ∧ (∀ item ∈ new, item.Fits) ∧
      ∀ out, out.toList = data.toList.take i →
        (writeItems new.toList out).toList = data.toList := by
  fun_induction itemsFrom depth data seen i items with
  | case1 seen i items h =>
    refine ⟨#[], by simp, by simp, fun out hout => ?_⟩
    have hsize : data.toList.length ≤ i := by
      rw [Array.length_toList]
      exact Array.getElem?_eq_none_iff.1 h
    rw [List.take_of_length_le hsize] at hout
    exact hout
  | case2 seen i items byte h hlt length distance hcopy seen' ih =>
    obtain ⟨new, hnew, hfits, hwrite⟩ := ih
    obtain ⟨hfit, hrepeats⟩ := longestCopy_spec hcopy
    refine ⟨#[.copy (length + 1) distance] ++ new, ?_, ?_, fun out hout => ?_⟩
    · rw [hnew, Array.push_eq_append, Array.append_assoc]
    · intro item hitem
      rcases Array.mem_append.1 hitem with hitem | hitem
      · rw [Array.mem_singleton.1 hitem]
        exact hfit
      · exact hfits item hitem
    · rw [Array.toList_append]
      exact hwrite _ (copyBack_take hrepeats hout)
  | case3 seen i items byte h hlt _ ih =>
    obtain ⟨new, hnew, hfits, hwrite⟩ := ih
    refine ⟨#[.literal byte] ++ new, ?_, ?_, fun out hout => ?_⟩
    · rw [hnew, Array.push_eq_append, Array.append_assoc]
    · intro item hitem
      rcases Array.mem_append.1 hitem with hitem | hitem
      · rw [Array.mem_singleton.1 hitem]
        trivial
      · exact hfits item hitem
    · rw [Array.toList_append]
      refine hwrite _ ?_
      rw [Item.write, Array.toList_push, hout, take_succ_of_getElem? h]

/-- **The items for some bytes can be written, and give the bytes back.** -/
theorem writeItems_itemsOf (depth : Nat) (bytes : Bytes) :
    (∀ item ∈ itemsOf depth bytes, item.Fits) ∧
      (writeItems (itemsOf depth bytes) #[]).toList = bytes := by
  obtain ⟨new, hnew, hfits, hwrite⟩ := itemsFrom_spec depth bytes.toArray ∅ 0 #[]
  have hitems : itemsOf depth bytes = new.toList := by
    rw [itemsOf, hnew, Array.empty_append]
  rw [hitems]
  exact ⟨fun item hitem => hfits item (Array.mem_toList_iff.1 hitem), hwrite #[] rfl⟩

end FilteredChunks.Deflate
