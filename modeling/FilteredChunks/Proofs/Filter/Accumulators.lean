import FilteredChunks.Proofs.Checked
import FilteredChunks.Proofs.Filter.Checksum
import Mathlib.Algebra.BigOperators.Intervals
import Mathlib.Algebra.Order.BigOperators.Group.Finset

/-!
# A checksum by its definition

The two halves of a checksum are defined by the position of each word: the sum of all words, and the sum
in which a word counts once for each word from it on, both modulo 65535.  A program that computes them
goes through the bytes block by block, adds in two words of 64 bits and reduces at the end of each block
(`looped?`), where a sum that is too large for 64 bits is no result.  After each block the accumulators
have both halves for the bytes so far (`Accumulators.Holds.addBlock`), so it does not matter where blocks
end, as long as no word is cut apart.  The main statement is `followsDefinition`.
-/

namespace FilteredChunks.Fletcher32

/-! ### The definition -/

/-- How many words a byte string has. -/
def wordCount (data : Bytes) : Nat := (data.length + 1) / 2

/-- The word at an index, high byte first.  A byte behind the last one counts as zero. -/
def wordAt (data : Bytes) (i : Nat) : Nat :=
  256 * (data.getD (2 * i) 0).toNat + (data.getD (2 * i + 1) 0).toNat

/-- The low half: the sum of the words. -/
def lowHalf (data : Bytes) : Nat := (∑ i ∈ Finset.range (wordCount data), wordAt data i) % 65535

/-- The high half: the sum of the words, each as often as there are words from it on. -/
def highHalf (data : Bytes) : Nat :=
  (∑ i ∈ Finset.range (wordCount data), (wordCount data - i) * wordAt data i) % 65535

/-! ### The loops -/

/-- The two sums, as words of 64 bits. -/
structure Accumulators where
  first : UInt64
  second : UInt64

namespace Accumulators

def zero : Accumulators := ⟨0, 0⟩

/-- Adds a word to the first sum and then the first sum to the second one, unless one overflows. -/
def add? (acc : Accumulators) (word : Nat) : Option Accumulators := do
  let first ← Checked.add? acc.first (UInt64.ofNat word)
  let second ← Checked.add? acc.second first
  return ⟨first, second⟩

def reduce (acc : Accumulators) : Accumulators := ⟨acc.first % 65535, acc.second % 65535⟩

/-- Adds the words of a block and then reduces. -/
def addBlock? (acc : Accumulators) (block : Bytes) : Option Accumulators :=
  ((words block).foldlM add? acc).map reduce

/-- The low 32 bits of both sums, the second one shifted to the high half. -/
def pack (acc : Accumulators) : UInt32 := acc.second.toUInt32 <<< 16 ||| acc.first.toUInt32

end Accumulators

/-- The checksum of blocks that follow each other. -/
def looped? (blocks : List Bytes) : Option UInt32 :=
  (blocks.foldlM Accumulators.addBlock? .zero).map Accumulators.pack

/-- Cuts bytes into blocks of a size; the last block has what is left. -/
def blocksOf (size : Nat) (data : Bytes) : List Bytes :=
  if size = 0 ∨ data = [] then []
  else data.take size :: blocksOf size (data.drop size)
termination_by data.length
decreasing_by
  rename_i h
  obtain ⟨hsize, hdata⟩ := not_or.1 h
  have := List.length_pos_iff.2 hdata
  rw [List.length_drop]
  omega

/-- Bytes of a block whose sums 64 bits can hold whatever the bytes are. -/
def longestBlock : Nat := 2 ^ 25

/-- Blocks that a byte string is cut into so that no word is cut apart, none of them too long. -/
structure IsCut (blocks : List Bytes) (data : Bytes) : Prop where
  flatten : blocks.flatten = data
  even : ∀ block ∈ blocks.dropLast, block.length % 2 = 0
  short : ∀ block ∈ blocks, block.length ≤ longestBlock

/-! ### Words by their positions -/

theorem words_eq_map (data : Bytes) : words data = (List.range (wordCount data)).map (wordAt data) := by
  induction data using words.induct with
  | case1 => rfl
  | case2 high => simp [words, wordCount, wordAt, Nat.mul_comm]
  | case3 high low rest ih =>
    have hcount : wordCount (high :: low :: rest) = wordCount rest + 1 := by
      simp only [wordCount, List.length_cons]
      omega
    have hfirst : wordAt (high :: low :: rest) 0 = high.toNat * 256 + low.toNat :=
      congrArg (· + low.toNat) (Nat.mul_comm _ _)
    have hothers : wordAt (high :: low :: rest) ∘ Nat.succ = wordAt rest := rfl
    rw [words, ih, hcount, List.range_succ_eq_map, List.map_cons, List.map_map, hfirst, hothers]

theorem length_words (data : Bytes) : (words data).length = wordCount data := by
  rw [words_eq_map, List.length_map, List.length_range]

theorem total_map_range (f : Nat → Nat) (n : Nat) :
    total id ((List.range n).map f) = ∑ i ∈ Finset.range n, f i := by
  induction n with
  | zero => rfl
  | succ n ih =>
    rw [List.range_succ, List.map_append, total_append, ih, Finset.sum_range_succ]
    rfl

theorem sumOfSums_map_range (f : Nat → Nat) (n : Nat) :
    sumOfSums ((List.range n).map f) = ∑ i ∈ Finset.range n, (n - i) * f i := by
  induction n with
  | zero => rfl
  | succ n ih =>
    have hmore : ∀ i ∈ Finset.range n, (n + 1 - i) * f i = (n - i) * f i + f i := by
      intro i hi
      have hlt := Finset.mem_range.1 hi
      rw [Nat.succ_sub (Nat.le_of_lt hlt), Nat.succ_mul]
    rw [List.range_succ, List.map_append, sumOfSums_append, ih, total_map_range,
      Finset.sum_range_succ, Finset.sum_congr rfl hmore, Finset.sum_add_distrib]
    simp [sumOfSums]

theorem lowHalf_eq (data : Bytes) : lowHalf data = total id (words data) % 65535 := by
  rw [words_eq_map, total_map_range, lowHalf]

theorem highHalf_eq (data : Bytes) : highHalf data = sumOfSums (words data) % 65535 := by
  rw [words_eq_map, sumOfSums_map_range, highHalf]

theorem lowHalf_lt (data : Bytes) : lowHalf data < 65535 := Nat.mod_lt _ (by decide)

theorem highHalf_lt (data : Bytes) : highHalf data < 65535 := Nat.mod_lt _ (by decide)

theorem lowHalf_append {before : Bytes} (heven : before.length % 2 = 0) (block : Bytes) :
    lowHalf (before ++ block) = (lowHalf before + total id (words block)) % 65535 := by
  rw [lowHalf_eq, lowHalf_eq, words_append heven, total_append, Nat.mod_add_mod]

theorem highHalf_append {before : Bytes} (heven : before.length % 2 = 0) (block : Bytes) :
    highHalf (before ++ block) =
      (highHalf before + (words block).length * lowHalf before + sumOfSums (words block)) % 65535 := by
  rw [highHalf_eq, highHalf_eq, lowHalf_eq, words_append heven, sumOfSums_append]
  have hsum : sumOfSums (words before) ≡ sumOfSums (words before) % 65535 [MOD 65535] :=
    (Nat.mod_modEq _ _).symm
  have hproduct : (words block).length * total id (words before) ≡
      (words block).length * (total id (words before) % 65535) [MOD 65535] :=
    (Nat.mod_modEq _ _).symm.mul_left _
  exact (hsum.add hproduct).add_right _

/-- **The halves of a checksum are those of its definition.** -/
theorem checksum_eq_halves (data : Bytes) : checksum data = 65536 * highHalf data + lowHalf data := by
  rw [checksum_eq, lowHalf_eq, highHalf_eq, Nat.mul_comm]

/-! ### One block -/

theorem le_of_mem_words {data : Bytes} {word : Nat} (h : word ∈ words data) : word ≤ 65535 := by
  rw [words_eq_map] at h
  obtain ⟨i, -, rfl⟩ := List.mem_map.1 h
  have hhigh := (data.getD (2 * i) 0).toNat_lt
  have hlow := (data.getD (2 * i + 1) 0).toNat_lt
  unfold wordAt
  omega

theorem sumOfSums_le (ws : List Nat) : sumOfSums ws ≤ ws.length * total id ws := by
  induction ws with
  | nil => exact Nat.le_refl 0
  | cons word rest ih =>
    rw [sumOfSums, List.length_cons, total_cons, Nat.mul_add, Nat.succ_mul rest.length (total id rest)]
    simp only [id]
    omega

theorem length_flatten_even {blocks : List Bytes} (h : ∀ block ∈ blocks, block.length % 2 = 0) :
    blocks.flatten.length % 2 = 0 := by
  induction blocks with
  | nil => rfl
  | cons block blocks ih =>
    have hblock := h block List.mem_cons_self
    have hblocks := ih fun b hb => h b (List.mem_cons_of_mem _ hb)
    rw [List.flatten_cons, List.length_append]
    omega

namespace Accumulators

theorem exists_add? (acc : Accumulators) (word : Nat)
    (hfirst : acc.first.toNat + word < UInt64.size)
    (hsecond : acc.second.toNat + (acc.first.toNat + word) < UInt64.size) :
    ∃ acc', acc.add? word = some acc' ∧ acc'.first.toNat = acc.first.toNat + word ∧
      acc'.second.toNat = acc.second.toNat + (acc.first.toNat + word) := by
  have hword : (UInt64.ofNat word).toNat = word := UInt64.toNat_ofNat_of_lt' (by omega)
  rw [← hword] at hfirst
  obtain ⟨first, hadd, hfirst'⟩ := Checked.exists_add? hfirst
  rw [hword] at hfirst'
  rw [← hfirst'] at hsecond
  obtain ⟨second, hadd', hsecond'⟩ := Checked.exists_add? hsecond
  refine ⟨⟨first, second⟩, ?_, hfirst', ?_⟩
  · simp only [add?, hadd, hadd', Option.bind_eq_bind, Option.bind_some]
    rfl
  · rw [← hfirst', hsecond']

theorem exists_foldlM_add? (ws : List Nat) (acc : Accumulators)
    (hfirst : acc.first.toNat + total id ws < UInt64.size)
    (hsecond : acc.second.toNat + ws.length * acc.first.toNat + sumOfSums ws < UInt64.size) :
    ∃ acc', ws.foldlM add? acc = some acc' ∧ acc'.first.toNat = acc.first.toNat + total id ws ∧
      acc'.second.toNat = acc.second.toNat + ws.length * acc.first.toNat + sumOfSums ws := by
  induction ws generalizing acc with
  | nil => exact ⟨acc, rfl, by simp, by simp [sumOfSums]⟩
  | cons word rest ih =>
    have htotal : total id (word :: rest) = word + total id rest := rfl
    have hsums : acc.second.toNat + (word :: rest).length * acc.first.toNat +
        sumOfSums (word :: rest) =
        acc.second.toNat + (acc.first.toNat + word) + rest.length * (acc.first.toNat + word) +
          sumOfSums rest := by
      rw [List.length_cons, sumOfSums]
      ring
    rw [htotal, ← Nat.add_assoc] at hfirst
    rw [hsums] at hsecond
    obtain ⟨next, hadd, hfirst', hsecond'⟩ := exists_add? acc word (by omega) (by omega)
    rw [← hfirst'] at hfirst
    rw [← hsecond', ← hfirst'] at hsecond
    obtain ⟨last, hlast, hlastFirst, hlastSecond⟩ := ih next hfirst hsecond
    refine ⟨last, ?_, ?_, ?_⟩
    · rw [List.foldlM_cons, hadd]
      exact hlast
    · rw [hlastFirst, hfirst', htotal, Nat.add_assoc]
    · rw [hlastSecond, hsecond', hfirst', hsums]

/-- The accumulators have both halves of the checksum of some bytes. -/
structure Holds (acc : Accumulators) (data : Bytes) : Prop where
  first : acc.first.toNat = lowHalf data
  second : acc.second.toNat = highHalf data

theorem holds_zero : zero.Holds [] := ⟨rfl, rfl⟩

/-- **One block**: after whole words, a block that is not too long overflows nothing. -/
theorem Holds.addBlock {acc : Accumulators} {before : Bytes} (h : acc.Holds before)
    (heven : before.length % 2 = 0) {block : Bytes} (hshort : block.length ≤ longestBlock) :
    ∃ acc', acc.addBlock? block = some acc' ∧ acc'.Holds (before ++ block) := by
  have hlength : (words block).length ≤ 2 ^ 24 := by
    rw [length_words, wordCount]
    unfold longestBlock at hshort
    omega
  have htotal : total id (words block) ≤ 2 ^ 24 * 65535 :=
    Nat.le_trans (total_le_mul fun word hword => le_of_mem_words hword) (Nat.mul_le_mul_right _ hlength)
  have hsums : sumOfSums (words block) ≤ 2 ^ 24 * (2 ^ 24 * 65535) :=
    Nat.le_trans (sumOfSums_le _) (Nat.mul_le_mul hlength htotal)
  have hfirst : acc.first.toNat < 65535 := h.first ▸ lowHalf_lt before
  have hsecond : acc.second.toNat < 65535 := h.second ▸ highHalf_lt before
  have hproduct : (words block).length * acc.first.toNat ≤ 2 ^ 24 * 65535 :=
    Nat.mul_le_mul hlength (Nat.le_of_lt hfirst)
  have hsize : UInt64.size = 2 ^ 64 := rfl
  obtain ⟨added, hadded, hfirst', hsecond'⟩ :=
    exists_foldlM_add? (words block) acc (by omega) (by omega)
  refine ⟨added.reduce, by rw [addBlock?, hadded]; rfl, ?_, ?_⟩
  · rw [reduce, UInt64.toNat_mod, hfirst', h.first, lowHalf_append heven]
    rfl
  · rw [reduce, UInt64.toNat_mod, hsecond', h.first, h.second, highHalf_append heven]
    rfl

/-- **All blocks**: if none but the last one ends within a word, they leave both halves. -/
theorem exists_foldlM_addBlock? {blocks : List Bytes}
    (heven : ∀ block ∈ blocks.dropLast, block.length % 2 = 0)
    (hshort : ∀ block ∈ blocks, block.length ≤ longestBlock) :
    ∃ acc, blocks.foldlM addBlock? zero = some acc ∧ acc.Holds blocks.flatten := by
  induction blocks using List.reverseRecOn with
  | nil => exact ⟨zero, rfl, holds_zero⟩
  | append_singleton blocks block ih =>
    rw [List.dropLast_concat] at heven
    obtain ⟨acc, hacc, hholds⟩ := ih (fun b hb => heven b (List.dropLast_subset _ hb))
      (fun b hb => hshort b (List.mem_append_left _ hb))
    obtain ⟨acc', hadd, hholds'⟩ :=
      hholds.addBlock (length_flatten_even heven) (hshort block (by simp))
    refine ⟨acc', ?_, ?_⟩
    · rw [List.foldlM_append, hacc, Option.bind_eq_bind, Option.bind_some, List.foldlM_cons, hadd]
      rfl
    · rw [List.flatten_append, List.flatten_singleton]
      exact hholds'

theorem Holds.toNat_pack {acc : Accumulators} {data : Bytes} (h : acc.Holds data) :
    acc.pack.toNat = checksum data := by
  have hfirst := lowHalf_lt data
  have hsecond := highHalf_lt data
  rw [pack, UInt32.toNat_or, UInt32.toNat_shiftLeft, UInt64.toNat_toUInt32, UInt64.toNat_toUInt32,
    h.first, h.second, checksum_eq_halves]
  have hlow : lowHalf data < 2 ^ 16 := by omega
  have hshift : highHalf data <<< 16 = 65536 * highHalf data := by
    rw [Nat.shiftLeft_eq, Nat.mul_comm]
  calc (highHalf data % 2 ^ 32) <<< 16 % 2 ^ 32 ||| lowHalf data % 2 ^ 32
      = highHalf data <<< 16 ||| lowHalf data := by
        rw [Nat.mod_eq_of_lt (a := highHalf data) (by omega), Nat.mod_eq_of_lt (by rw [hshift]; omega),
          Nat.mod_eq_of_lt (by omega)]
    _ = highHalf data <<< 16 + lowHalf data := (Nat.shiftLeft_add_eq_or_of_lt hlow _).symm
    _ = 65536 * highHalf data + lowHalf data := by rw [hshift]

end Accumulators

/-- **Where the blocks end makes no difference**, and no sum is too large for 64 bits. -/
theorem looped?_of_isCut {blocks : List Bytes} {data : Bytes} (h : IsCut blocks data) :
    (looped? blocks).map UInt32.toNat = some (checksum data) := by
  obtain ⟨acc, hacc, hholds⟩ := Accumulators.exists_foldlM_addBlock? h.even h.short
  rw [h.flatten] at hholds
  rw [looped?, hacc, Option.map_some, Option.map_some, hholds.toNat_pack]

/-! ### Blocks of one size -/

theorem blocksOf_nil (size : Nat) : blocksOf size [] = [] := by
  rw [blocksOf, if_pos (Or.inr rfl)]

theorem blocksOf_of_ne_nil {size : Nat} (hsize : 0 < size) {data : Bytes} (h : data ≠ []) :
    blocksOf size data = data.take size :: blocksOf size (data.drop size) := by
  rw [blocksOf, if_neg (not_or.2 ⟨Nat.ne_of_gt hsize, h⟩)]

theorem flatten_blocksOf {size : Nat} (hsize : 0 < size) (data : Bytes) :
    (blocksOf size data).flatten = data := by
  induction data using blocksOf.induct size with
  | case1 data h =>
    obtain rfl := h.resolve_left (Nat.ne_of_gt hsize)
    rw [blocksOf_nil, List.flatten_nil]
  | case2 data h ih =>
    rw [blocksOf_of_ne_nil hsize (not_or.1 h).2, List.flatten_cons, ih, List.take_append_drop]

theorem length_le_of_mem_blocksOf {size : Nat} {data block : Bytes} (h : block ∈ blocksOf size data) :
    block.length ≤ size := by
  induction data using blocksOf.induct size with
  | case1 data hend =>
    rw [blocksOf, if_pos hend] at h
    cases h
  | case2 data hmore ih =>
    rw [blocksOf, if_neg hmore] at h
    rcases List.mem_cons.1 h with rfl | h
    · exact List.length_take_le _ _
    · exact ih h

theorem length_of_mem_dropLast_blocksOf {size : Nat} {data block : Bytes}
    (h : block ∈ (blocksOf size data).dropLast) : block.length = size := by
  induction data using blocksOf.induct size with
  | case1 data hend =>
    rw [blocksOf, if_pos hend] at h
    cases h
  | case2 data hmore ih =>
    rw [blocksOf, if_neg hmore] at h
    by_cases hrest : blocksOf size (data.drop size) = []
    · rw [hrest] at h
      cases h
    · rw [List.dropLast_cons_of_ne_nil hrest] at h
      rcases List.mem_cons.1 h with rfl | h
      · -- something is left after this block, so it is whole
        have hleft : data.drop size ≠ [] := fun hnil => hrest (by rw [hnil, blocksOf_nil])
        have hlt := List.length_pos_iff.2 hleft
        rw [List.length_drop] at hlt
        exact List.length_take_of_le (by omega)
      · exact ih h

theorem isCut_blocksOf {size : Nat} (hsize : 0 < size) (heven : size % 2 = 0)
    (hshort : size ≤ longestBlock) (data : Bytes) : IsCut (blocksOf size data) data where
  flatten := flatten_blocksOf hsize data
  even block h := by rw [length_of_mem_dropLast_blocksOf h, heven]
  short block h := Nat.le_trans (length_le_of_mem_blocksOf h) hshort

/-! ### One pass over all words -/

/-- What sums come to at most, by the number of words since they were last reduced. -/
structure Sums.IsBounded (s : Sums) : Prop where
  pending : s.pending < blockWords
  first : s.first ≤ 65534 + s.pending * 65535
  second : s.second ≤ 65534 + s.pending * (65534 + blockWords * 65535)

namespace Sums

theorem isBounded_zero : zero.IsBounded := ⟨by decide, by decide, by decide⟩

theorem isBounded_reduce (s : Sums) : s.reduce.IsBounded where
  pending := show 0 < blockWords by decide
  first := Nat.le_trans (Nat.le_of_lt_succ (Nat.mod_lt _ (by decide))) (Nat.le_add_right _ _)
  second := Nat.le_trans (Nat.le_of_lt_succ (Nat.mod_lt _ (by decide))) (Nat.le_add_right _ _)

/-- Adding a word keeps the bounds, since a full block is reduced at once. -/
theorem IsBounded.add {s : Sums} (h : s.IsBounded) {word : Nat} (hword : word ≤ 65535) :
    (s.add word).IsBounded := by
  obtain ⟨hpending, hfirst, hsecond⟩ := h
  have hblock : blockWords = 360 := rfl
  have hfirst' : s.first + word ≤ 65534 + (s.pending + 1) * 65535 := by omega
  have hsecond' : s.second + (s.first + word) ≤
      65534 + (s.pending + 1) * (65534 + blockWords * 65535) := by
    rw [hblock] at hpending hsecond ⊢
    omega
  unfold Sums.add
  dsimp only
  split
  case isTrue => exact isBounded_reduce _
  case isFalse hopen =>
    exact ⟨Nat.lt_of_le_of_ne hpending hopen, hfirst', hsecond'⟩

theorem isBounded_foldl {ws : List Nat} (hws : ∀ word ∈ ws, word ≤ 65535) {s : Sums}
    (h : s.IsBounded) : (ws.foldl add s).IsBounded := by
  induction ws generalizing s with
  | nil => exact h
  | cons word rest ih =>
    exact ih (fun w hw => hws w (List.mem_cons_of_mem _ hw)) (h.add (hws word List.mem_cons_self))

theorem IsBounded.fits {s : Sums} (h : s.IsBounded) {word : Nat} (hword : word ≤ 65535) :
    s.first + word < UInt64.size ∧ s.second + (s.first + word) < UInt64.size := by
  obtain ⟨hpending, hfirst, hsecond⟩ := h
  have hblock : blockWords = 360 := rfl
  have hsize : UInt64.size = 2 ^ 64 := rfl
  rw [hblock] at hpending hsecond
  omega

end Sums

/-! ### Main statement -/

/-- What a checksum is, and what it takes to compute it. -/
structure FollowsDefinition (data : Bytes) : Prop where
  halves : checksum data = 65536 * highHalf data + lowHalf data
  low : lowHalf data < 65535
  high : highHalf data < 65535
  /-- One pass over the words never has a sum that 64 bits cannot hold, not even before it reduces. -/
  fits : ∀ before word after, words data = before ++ word :: after →
    let s := before.foldl Sums.add .zero
    s.first + word < UInt64.size ∧ s.second + (s.first + word) < UInt64.size
  /-- Nor do the loops over blocks, wherever the blocks end. -/
  looped : ∀ blocks, IsCut blocks data → (looped? blocks).map UInt32.toNat = some (checksum data)
  cut : IsCut (blocksOf (2 * blockWords) data) data

/-- **A checksum is what its definition says**, for every byte string and every way to cut it into
blocks. -/
theorem followsDefinition (data : Bytes) : FollowsDefinition data where
  halves := checksum_eq_halves data
  low := lowHalf_lt data
  high := highHalf_lt data
  fits before word after h := by
    have hws : ∀ w ∈ before ++ word :: after, w ≤ 65535 := fun w hw => le_of_mem_words (h ▸ hw)
    have hbefore : ∀ w ∈ before, w ≤ 65535 := fun w hw => hws w (List.mem_append_left _ hw)
    have hbounded := Sums.isBounded_foldl hbefore Sums.isBounded_zero
    exact hbounded.fits (hws word (List.mem_append_right _ List.mem_cons_self))
  looped _ h := looped?_of_isCut h
  cut := isCut_blocksOf (by decide) (by decide) (by decide) data

/-- An odd byte is the high half of a word, also in a block of its own. -/
example : looped? [[0x01, 0x02], [0x03]] = some 0x05040402 := by
  rfl

end FilteredChunks.Fletcher32
