import FilteredChunks.Filter.Fletcher32
import FilteredChunks.Proofs.Filter.Lossless
import FilteredChunks.Total
import Mathlib.Data.Int.ModEq
import Mathlib.Data.List.Basic
import Mathlib.Tactic.Ring

/-!
# What a checksum catches

However often they are reduced, the two sums of a checksum are the sum of the words and the sum of all
sums so far, modulo 65535 (`checksum_eq`).  In the second one a word counts once for itself and once for
every word after it, so that another word in its place changes both sums by multiples of the difference:
the checksum stays if and only if the difference is a multiple of 65535 (`checksum_eq_iff_of_word`), which
for two words is the exchange of 0 and 65535.  Both bytes differ then, so that no single byte can be
changed without a trace, neither one of the payload (`checksum_set_ne`) nor one of the checksum behind it
(`exists_mismatch_of_set`).
-/

namespace FilteredChunks.Fletcher32

/-- The sum of all sums so far: each word counts once for itself and once for every word after it. -/
def sumOfSums : List Nat → Nat
  | [] => 0
  | word :: rest => (rest.length + 1) * word + sumOfSums rest

/-- Two bytes, or the last one of an odd number. -/
def IsWord (word after : Bytes) : Prop := word.length = 2 ∨ word.length = 1 ∧ after = []

/-! ### Sums modulo 65535 -/

theorem modEq_add (s : Sums) (word : Nat) :
    (s.add word).first ≡ s.first + word [MOD 65535] ∧
      (s.add word).second ≡ s.second + (s.first + word) [MOD 65535] := by
  unfold Sums.add
  dsimp only
  split
  · exact ⟨Nat.mod_modEq _ _, Nat.mod_modEq _ _⟩
  · exact ⟨rfl, rfl⟩

theorem modEq_foldl_add (ws : List Nat) (s : Sums) :
    (ws.foldl Sums.add s).first ≡ s.first + total id ws [MOD 65535] ∧
      (ws.foldl Sums.add s).second ≡
        s.second + ws.length * s.first + sumOfSums ws [MOD 65535] := by
  induction ws generalizing s with
  | nil => simp [sumOfSums, Nat.ModEq.refl]
  | cons word rest ih =>
    obtain ⟨hfirst, hsecond⟩ := ih (s.add word)
    obtain ⟨hadd, hadd'⟩ := modEq_add s word
    constructor
    · calc (rest.foldl Sums.add (s.add word)).first
          ≡ (s.add word).first + total id rest [MOD 65535] := hfirst
        _ ≡ s.first + word + total id rest [MOD 65535] := hadd.add_right _
        _ = s.first + total id (word :: rest) := by rw [total_cons, id, Nat.add_assoc]
    · calc (rest.foldl Sums.add (s.add word)).second
          ≡ (s.add word).second + rest.length * (s.add word).first + sumOfSums rest
              [MOD 65535] := hsecond
        _ ≡ s.second + (s.first + word) + rest.length * (s.first + word) + sumOfSums rest
              [MOD 65535] := (hadd'.add (hadd.mul_left _)).add_right _
        _ = s.second + (word :: rest).length * s.first + sumOfSums (word :: rest) := by
            rw [List.length_cons, sumOfSums]
            ring

/-- **The two halves of a checksum**: the sum of the words, and the sum of all sums so far. -/
theorem checksum_eq (data : Bytes) :
    checksum data =
      sumOfSums (words data) % 65535 * 65536 + total id (words data) % 65535 := by
  obtain ⟨hfirst, hsecond⟩ := modEq_foldl_add (words data) .zero
  have hzero : Sums.zero.first = 0 ∧ Sums.zero.second = 0 := ⟨rfl, rfl⟩
  rw [hzero.1, Nat.zero_add] at hfirst
  rw [hzero.1, hzero.2, Nat.mul_zero, Nat.zero_add] at hsecond
  show ((words data).foldl Sums.add .zero).second % 65535 * 65536 +
    ((words data).foldl Sums.add .zero).first % 65535 = _
  rw [hfirst, hsecond]

theorem checksum_eq_checksum_iff {data data' : Bytes} :
    checksum data' = checksum data ↔
      total id (words data') ≡ total id (words data) [MOD 65535] ∧
        sumOfSums (words data') ≡ sumOfSums (words data) [MOD 65535] := by
  rw [checksum_eq, checksum_eq]
  have hlt (n : Nat) : n % 65535 < 65535 := Nat.mod_lt n (by decide)
  have := hlt (total id (words data))
  have := hlt (total id (words data'))
  unfold Nat.ModEq
  omega

theorem sumOfSums_append (xs ys : List Nat) :
    sumOfSums (xs ++ ys) = sumOfSums xs + ys.length * total id xs + sumOfSums ys := by
  induction xs with
  | nil => simp [sumOfSums]
  | cons x xs ih =>
    rw [List.cons_append, sumOfSums, ih, sumOfSums, List.length_append, total_cons, id]
    ring

/-- Another word in the place of one changes both sums by multiples of the difference. -/
theorem modEq_sums_iff (xs ys : List Nat) (word word' : Nat) :
    (total id (xs ++ word' :: ys) ≡ total id (xs ++ word :: ys) [MOD 65535] ∧
      sumOfSums (xs ++ word' :: ys) ≡ sumOfSums (xs ++ word :: ys) [MOD 65535]) ↔
    word' ≡ word [MOD 65535] := by
  have htotal (n : Nat) : total id (xs ++ n :: ys) = total id xs + n + total id ys := by
    rw [total_append, total_cons, id, Nat.add_assoc]
  have hsums (n : Nat) : sumOfSums (xs ++ n :: ys) =
      sumOfSums xs + (ys.length + 1) * total id xs + ((ys.length + 1) * n + sumOfSums ys) := by
    rw [sumOfSums_append, sumOfSums, List.length_cons]
  rw [htotal, htotal, hsums, hsums]
  constructor
  · rintro ⟨hfirst, -⟩
    exact (hfirst.add_right_cancel' _).add_left_cancel' _
  · intro h
    exact ⟨(h.add_left _).add_right _, ((h.mul_left _).add_right _).add_left _⟩

/-! ### Words -/

theorem words_append {before : Bytes} (heven : before.length % 2 = 0) (rest : Bytes) :
    words (before ++ rest) = words before ++ words rest := by
  induction before using words.induct with
  | case1 => rfl
  | case2 high => simp at heven
  | case3 high low before ih =>
    have heven : before.length % 2 = 0 := by
      simp only [List.length_cons] at heven
      omega
    rw [List.cons_append, List.cons_append, words, words, ih heven, List.cons_append]

theorem IsWord.words_append {word after : Bytes} (h : IsWord word after) :
    words (word ++ after) = total id (words word) :: words after := by
  rcases h with h | ⟨h, rfl⟩
  · obtain ⟨high, low, rfl⟩ := List.length_eq_two.1 h
    simp [words]
  · obtain ⟨high, rfl⟩ := List.length_eq_one_iff.1 h
    simp [words]

theorem modEq_iff_of_le {m n : Nat} (hm : m ≤ 65535) (hn : n ≤ 65535) :
    m ≡ n [MOD 65535] ↔ m = n ∨ n = 0 ∧ m = 65535 ∨ n = 65535 ∧ m = 0 := by
  have hself : 65535 % 65535 = 0 := rfl
  unfold Nat.ModEq
  rcases Nat.lt_or_eq_of_le hm with hm | rfl <;> rcases Nat.lt_or_eq_of_le hn with hn | rfl
  · rw [Nat.mod_eq_of_lt hm, Nat.mod_eq_of_lt hn]
    omega
  · rw [Nat.mod_eq_of_lt hm, hself]
    omega
  · rw [Nat.mod_eq_of_lt hn, hself]
    omega
  · simp

/-- Of two words with the same sum modulo 65535, one is 0 and the other 65535, or they are the same. -/
theorem modEq_word_iff {word word' after : Bytes} (h : IsWord word after)
    (hlength : word'.length = word.length) :
    total id (words word') ≡ total id (words word) [MOD 65535] ↔
      word' = word ∨ word = [0, 0] ∧ word' = [255, 255] ∨ word = [255, 255] ∧ word' = [0, 0] := by
  rcases h with h | ⟨h, -⟩
  · obtain ⟨high, low, rfl⟩ := List.length_eq_two.1 h
    obtain ⟨high', low', rfl⟩ := List.length_eq_two.1 (hlength.trans h)
    have := high.toNat_lt
    have := low.toNat_lt
    have := high'.toNat_lt
    have := low'.toNat_lt
    have hzero : (0 : UInt8).toNat = 0 := rfl
    have hlast : (255 : UInt8).toNat = 255 := rfl
    simp only [words, total_cons, total_nil, id]
    rw [modEq_iff_of_le (by omega) (by omega)]
    simp only [List.cons.injEq, and_true, ← UInt8.toNat_inj, hzero, hlast]
    omega
  · obtain ⟨high, rfl⟩ := List.length_eq_one_iff.1 h
    obtain ⟨high', rfl⟩ := List.length_eq_one_iff.1 (hlength.trans h)
    have := high.toNat_lt
    have := high'.toNat_lt
    simp only [words, total_cons, total_nil, id]
    rw [modEq_iff_of_le (by omega) (by omega)]
    simp only [List.cons.injEq, and_true, ← UInt8.toNat_inj, reduceCtorEq, and_false, or_false]
    omega

/-- **Which changes of a word a checksum does not show**: only the exchange of 0 and 65535. -/
theorem checksum_eq_iff_of_word {before word word' after : Bytes} (heven : before.length % 2 = 0)
    (h : IsWord word after) (hlength : word'.length = word.length) :
    checksum (before ++ word' ++ after) = checksum (before ++ word ++ after) ↔
      word' = word ∨ word = [0, 0] ∧ word' = [255, 255] ∨ word = [255, 255] ∧ word' = [0, 0] := by
  have h' : IsWord word' after := by rwa [IsWord, hlength]
  rw [checksum_eq_checksum_iff, List.append_assoc, List.append_assoc, words_append heven,
    words_append heven, h.words_append, h'.words_append, modEq_sums_iff]
  exact modEq_word_iff h hlength

/-! ### Single bytes -/

theorem exists_word {data : Bytes} {i : Nat} (hi : i < data.length) :
    ∃ before word after, data = before ++ word ++ after ∧ before.length % 2 = 0 ∧
      IsWord word after ∧ before.length ≤ i ∧ i < before.length + word.length := by
  refine ⟨data.take (i / 2 * 2), (data.drop (i / 2 * 2)).take 2, (data.drop (i / 2 * 2)).drop 2,
    ?_, ?_, ?_, ?_, ?_⟩
  · rw [List.append_assoc, List.take_append_drop, List.take_append_drop]
  · rw [List.length_take]
    omega
  · rw [IsWord, List.length_take, List.length_drop, List.drop_drop, List.drop_eq_nil_iff]
    omega
  · rw [List.length_take]
    omega
  · rw [List.length_take, List.length_take, List.length_drop]
    omega

/-- **No single byte of the payload can be changed without changing the checksum.** -/
theorem checksum_set_ne {data : Bytes} {i : Nat} {byte : UInt8} (hi : i < data.length)
    (hbyte : data[i]? ≠ some byte) : checksum (data.set i byte) ≠ checksum data := by
  obtain ⟨before, word, after, rfl, heven, hword, hle, hlt⟩ := exists_word hi
  have hset : (before ++ word ++ after).set i byte =
      before ++ word.set (i - before.length) byte ++ after := by
    rw [List.set_append_left _ _ (by rw [List.length_append]; exact hlt),
      List.set_append_right _ _ hle]
  have hget : (before ++ word ++ after)[i]? = word[i - before.length]? := by
    rw [List.getElem?_append_left (by rw [List.length_append]; exact hlt),
      List.getElem?_append_right hle]
  rw [hget] at hbyte
  rw [hset, ne_eq, checksum_eq_iff_of_word heven hword List.length_set]
  have hj : i - before.length < word.length := by omega
  generalize i - before.length = j at hbyte hj
  rintro (hsame | ⟨rfl, hother⟩ | ⟨rfl, hother⟩)
  · -- the byte would be the one that is there
    refine hbyte ?_
    rw [← hsame, List.getElem?_set_self hj]
  · -- one of two bytes stays
    match j, hj with
    | 0, _ => simp at hother
    | 1, _ => simp at hother
  · match j, hj with
    | 0, _ => simp at hother
    | 1, _ => simp at hother

theorem fromLittleEndian_set_ne {bytes : Bytes} {i : Nat} {byte : UInt8} (hi : i < bytes.length)
    (hbyte : bytes[i]? ≠ some byte) :
    Bytes.fromLittleEndian (bytes.set i byte) ≠ Bytes.fromLittleEndian bytes := by
  intro hsame
  have hset : bytes.set i byte = bytes := by
    rw [← Bytes.littleEndian_fromLittleEndian (bytes.set i byte), hsame, List.length_set,
      Bytes.littleEndian_fromLittleEndian]
  refine hbyte ?_
  rw [← hset, List.getElem?_set_self hi]

/-- **No single byte of a payload with its checksum can be changed so that they still fit.** -/
theorem exists_mismatch_of_set (payload : Bytes) {i : Nat} {byte : UInt8}
    (hi : i < (payload ++ Bytes.littleEndian width (checksum payload)).length)
    (hbyte : (payload ++ Bytes.littleEndian width (checksum payload))[i]? ≠ some byte) :
    ∃ payload' stored, (payload ++ Bytes.littleEndian width (checksum payload)).set i byte =
        payload' ++ stored ∧ payload'.length = payload.length ∧ stored.length = width ∧
      Bytes.fromLittleEndian stored ≠ checksum payload' := by
  have hfits : Bytes.fromLittleEndian (Bytes.littleEndian width (checksum payload)) =
      checksum payload := by
    rw [Bytes.fromLittleEndian_littleEndian, Nat.mod_eq_of_lt (checksum_lt payload)]
  by_cases hpayload : i < payload.length
  · rw [List.getElem?_append_left hpayload] at hbyte
    refine ⟨payload.set i byte, _, List.set_append_left _ _ hpayload, List.length_set,
      Bytes.length_littleEndian _ _, ?_⟩
    rw [hfits]
    exact (checksum_set_ne hpayload hbyte).symm
  · have hle : payload.length ≤ i := Nat.not_lt.1 hpayload
    rw [List.getElem?_append_right hle] at hbyte
    rw [List.length_append] at hi
    refine ⟨payload, _, List.set_append_right _ _ hle, rfl, ?_, ?_⟩
    · rw [List.length_set, Bytes.length_littleEndian]
    · intro hsame
      exact fromLittleEndian_set_ne (by omega) hbyte (hsame.trans hfits.symm)

/-! ### Calls -/

theorem transform_verifying {flags : FilterFlags} (hreverse : flags.contains .reverse = true)
    (hchecks : flags.contains .skipChecks = false) (ws : List UInt32) (payload : Bytes)
    {stored : Bytes} (hstored : stored.length = width) :
    transform flags ws (payload ++ stored).length (payload ++ stored) =
      .produced (if Bytes.fromLittleEndian stored = checksum payload then payload.length else 0)
        (payload ++ stored) := by
  have hlength : (payload ++ stored).length = payload.length + width := by
    rw [List.length_append, hstored]
  unfold transform
  dsimp only
  rw [hreverse, if_pos rfl, Nat.min_self, hlength, if_neg (by omega), hchecks,
    if_neg Bool.false_ne_true, Nat.add_sub_cancel,
    Bytes.slice?_of_le (Nat.le_add_right _ _) (Nat.le_of_eq hlength.symm),
    Bytes.slice?_of_le (Nat.zero_le _) (by omega), ← hlength, List.take_length,
    List.drop_left' rfl, List.take_left' rfl, List.drop_zero]
  dsimp only
  split <;> rfl

theorem transform_skipping {flags : FilterFlags} (hreverse : flags.contains .reverse = true)
    (hchecks : flags.contains .skipChecks = true) (ws : List UInt32) {data : Bytes}
    (hlength : width ≤ data.length) :
    transform flags ws data.length data = .produced (data.length - width) data := by
  unfold transform
  dsimp only
  rw [hreverse, if_pos rfl, Nat.min_self, if_neg (Nat.not_lt.2 hlength), hchecks, if_pos rfl]

end FilteredChunks.Fletcher32
