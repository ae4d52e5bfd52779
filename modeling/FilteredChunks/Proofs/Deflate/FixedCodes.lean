import FilteredChunks.Proofs.Deflate.Bits
import FilteredChunks.Proofs.Deflate.Copies
import Mathlib.Data.List.Induction

/-!
# Items are read as they were written in the fixed codes

Every fixed code word leads to its symbol (`allLead_literalWords`, `allLead_distanceWords`), every
length and distance has a range (`rangeOf_spec`), and so every item is read back (`readItem_itemBits`),
and all items of a block up to its end (`inflateItems_itemBits`).
-/

namespace FilteredChunks.Deflate

/-! ### Code words -/

/-- The symbol to which a code word leads. -/
def CodeTree.leads : CodeTree → List Bool → Option Nat
  | leaf symbol, [] => some symbol
  | node zero one, bit :: word => if bit then one.leads word else zero.leads word
  | _, _ => none

theorem CodeTree.walk_of_leads {tree : CodeTree} {word : List Bool} {symbol : Nat}
    (h : tree.leads word = some symbol) {c : Cursor} {bits : List Bool} (hc : c.At (word ++ bits)) :
    ∃ c', tree.walk c = some (symbol, c') ∧ c'.At bits := by
  induction tree generalizing word c with
  | empty => cases word <;> cases h
  | leaf symbol' =>
    cases word with
    | nil =>
      cases h
      exact ⟨c, rfl, hc⟩
    | cons bit word => cases h
  | node zero one ihzero ihone =>
    cases word with
    | nil => cases h
    | cons bit word =>
      obtain ⟨c₁, hnext, hc₁⟩ := hc.next
      rw [walk, hnext]
      cases bit with
      | true => exact ihone h hc₁
      | false => exact ihzero h hc₁

theorem CodeTree.decode_of_leads {tree : CodeTree} {word : List Bool} {symbol : Nat} (hne : word ≠ [])
    (h : tree.leads word = some symbol) {c : Cursor} {bits : List Bool} (hc : c.At (word ++ bits)) :
    ∃ c', tree.decode c = some (symbol, c') ∧ c'.At bits := by
  cases tree with
  | empty => cases word <;> cases h
  | leaf symbol' =>
    cases word with
    | nil => exact absurd rfl hne
    | cons bit word => cases h
  | node zero one => exact walk_of_leads h hc

theorem toList_foldl_set (words : List (Nat × List Bool)) (table : Array (List Bool)) :
    (words.foldl (fun table (symbol, word) => table.setIfInBounds symbol word) table).toList =
      words.foldl (fun table (symbol, word) => table.set symbol word) table.toList := by
  induction words generalizing table with
  | nil => rfl
  | cons word words ih => rw [List.foldl_cons, ih, List.foldl_cons, Array.toList_setIfInBounds]

/-- All words of a table lead to their symbols, and none is empty. -/
def AllLead (tree : CodeTree) (words : List (List Bool)) : Prop :=
  ∀ x ∈ words.zipIdx, x.1 ≠ [] ∧ tree.leads x.1 = some x.2

instance (tree : CodeTree) (words : List (List Bool)) : Decidable (AllLead tree words) :=
  inferInstanceAs (Decidable (∀ x ∈ words.zipIdx, _))

theorem AllLead.getD {tree : CodeTree} {words : Array (List Bool)} (h : AllLead tree words.toList)
    {symbol : Nat} (hsymbol : symbol < words.toList.length) :
    words.getD symbol [] ≠ [] ∧ tree.leads (words.getD symbol []) = some symbol := by
  have hget : words.toList[symbol]? = some (words.getD symbol []) := by
    rw [Array.getD_eq_getD_getElem?, ← Array.getElem?_toList, List.getElem?_eq_getElem hsymbol]
    rfl
  exact h (words.getD symbol [], symbol) (List.mem_zipIdx_iff_getElem?.2 hget)

theorem allLead_literalWords : AllLead fixedCodes.1 literalWords.toList := by
  rw [literalWords, toList_foldl_set]
  decide +kernel

theorem allLead_distanceWords : AllLead fixedCodes.2 distanceWords.toList := by
  rw [distanceWords, toList_foldl_set]
  decide +kernel

theorem length_foldl_set (words : List (Nat × List Bool)) (table : List (List Bool)) :
    (words.foldl (fun table (symbol, word) => table.set symbol word) table).length = table.length := by
  induction words generalizing table with
  | nil => rfl
  | cons word words ih => rw [List.foldl_cons, ih, List.length_set]

theorem length_literalWords : literalWords.toList.length = 288 := by
  rw [literalWords, toList_foldl_set, length_foldl_set, Array.length_toList, Array.size_replicate,
    fixedLiteralLengths]
  simp only [List.length_append, List.length_replicate]

theorem length_distanceWords : distanceWords.toList.length = 32 := by
  rw [distanceWords, toList_foldl_set, length_foldl_set, Array.length_toList, Array.size_replicate,
    fixedDistanceLengths, List.length_replicate]

/-! ### Ranges -/

/-- Ranges that leave no gap below `top`. -/
def Covers (ranges : List (Nat × Nat)) (top : Nat) : Prop :=
  ∀ x ∈ ranges.zipIdx, ((ranges[x.2 + 1]?).map Prod.fst).getD top ≤ x.1.1 + 2 ^ x.1.2

instance (ranges : List (Nat × Nat)) (top : Nat) : Decidable (Covers ranges top) :=
  inferInstanceAs (Decidable (∀ x ∈ ranges.zipIdx, _))

theorem Covers.next {ranges : List (Nat × Nat)} {top i least extra : Nat} (h : Covers ranges top)
    (hat : ranges[i]? = some (least, extra)) :
    ((ranges[i + 1]?).map Prod.fst).getD top ≤ least + 2 ^ extra :=
  h ((least, extra), i) (List.mem_zipIdx_iff_getElem?.2 hat)

/-- The last range that starts at or before a number is the one that it is in. -/
theorem getLast?_filter_of_covers {ranges : List (Nat × Nat)} {top n : Nat}
    (hcovers : Covers ranges top) (hn : n < top) (hfirst : ∃ range ∈ ranges.head?, range.1 ≤ n) :
    ∃ least extra index, (ranges.zipIdx.filter fun entry => entry.1.1 ≤ n).getLast? =
        some ((least, extra), index) ∧
      ranges[index]? = some (least, extra) ∧ least ≤ n ∧ n < least + 2 ^ extra := by
  induction ranges using List.reverseRec generalizing top with
  | nil => obtain ⟨range, hrange, -⟩ := hfirst; cases hrange
  | append_singleton ranges last ih =>
    obtain ⟨least, extra⟩ := last
    have hlast : (ranges ++ [(least, extra)])[ranges.length]? = some (least, extra) := by simp
    rw [List.zipIdx_append, List.filter_append, Nat.zero_add]
    by_cases hle : least ≤ n
    · have hhere := hcovers.next hlast
      rw [List.getElem?_eq_none (by simp)] at hhere
      refine ⟨least, extra, ranges.length, ?_, hlast, hle, Nat.lt_of_lt_of_le hn hhere⟩
      simp [hle]
    · have hcovers' : Covers ranges least := by
        rintro ⟨⟨least', extra'⟩, i⟩ hmem
        have hat := List.mem_zipIdx_iff_getElem?.1 hmem
        obtain ⟨hlt, -⟩ := List.getElem?_eq_some_iff.1 hat
        have hnext := hcovers.next ((List.getElem?_append_left hlt).trans hat)
        dsimp only at hlt ⊢
        rcases Nat.lt_or_eq_of_le (Nat.succ_le_of_lt hlt : i + 1 ≤ ranges.length) with hlt' | heq
        · rw [List.getElem?_append_left hlt'] at hnext
          rw [List.getElem?_eq_getElem hlt'] at hnext ⊢
          exact hnext
        · rw [show i + 1 = ranges.length from heq] at hnext ⊢
          rw [hlast] at hnext
          rw [List.getElem?_eq_none (Nat.le_refl _)]
          exact hnext
      have hfirst' : ∃ range ∈ ranges.head?, range.1 ≤ n := by
        obtain ⟨range, hrange, hrangele⟩ := hfirst
        cases ranges with
        | nil =>
          cases hrange
          exact absurd hrangele hle
        | cons first ranges => exact ⟨range, hrange, hrangele⟩
      obtain ⟨least', extra', index, hfound, hat, hbounds⟩ :=
        ih hcovers' (Nat.lt_of_not_le hle) hfirst'
      obtain ⟨hlt, -⟩ := List.getElem?_eq_some_iff.1 hat
      refine ⟨least', extra', index, ?_, by rw [List.getElem?_append_left hlt, hat], hbounds⟩
      simpa [hle] using hfound

/-- **A number is found in its range.** -/
theorem rangeOf_spec {ranges : Array (Nat × Nat)} {top n : Nat} (hcovers : Covers ranges.toList top)
    (hn : n < top) (hfirst : ∃ range ∈ ranges.toList.head?, range.1 ≤ n) :
    ∃ least index extra, rangeOf ranges n = (index, n - least, extra) ∧
      ranges[index]? = some (least, extra) ∧ least ≤ n ∧ n - least < 2 ^ extra := by
  obtain ⟨least, extra, index, hfound, hat, hle, hlt⟩ := getLast?_filter_of_covers hcovers hn hfirst
  refine ⟨least, index, extra, ?_, by rwa [← Array.getElem?_toList], hle, by omega⟩
  rw [rangeOf, hfound]

theorem readRange_lowFirst {ranges : Array (Nat × Nat)} {index least extra n : Nat}
    (hat : ranges[index]? = some (least, extra)) (hle : least ≤ n) (hlt : n - least < 2 ^ extra)
    {c : Cursor} {bits : List Bool} (hc : c.At (lowFirst extra (n - least) ++ bits)) :
    ∃ c', readRange ranges index c = some (n, c') ∧ c'.At bits := by
  obtain ⟨c', hnumber, hc'⟩ := hc.number hlt
  refine ⟨c', ?_, hc'⟩
  rw [readRange, hat, Option.bind_some]
  dsimp only
  rw [hnumber, Option.map_some]
  dsimp only
  rw [Nat.add_sub_cancel' hle]

theorem covers_lengthRanges : Covers lengthRanges.toList (maxCopy + 1) := by decide

theorem covers_distanceRanges : Covers distanceRanges.toList (maxDistance + 1) := by decide

/-! ### Items -/

theorem decode_literalWords {symbol : Nat} (hsymbol : symbol < 288) {c : Cursor} {bits : List Bool}
    (hc : c.At (literalWords.getD symbol [] ++ bits)) :
    ∃ c', fixedCodes.1.decode c = some (symbol, c') ∧ c'.At bits := by
  obtain ⟨hne, hleads⟩ := allLead_literalWords.getD (length_literalWords.symm ▸ hsymbol)
  exact CodeTree.decode_of_leads hne hleads hc

theorem decode_distanceWords {symbol : Nat} (hsymbol : symbol < 32) {c : Cursor} {bits : List Bool}
    (hc : c.At (distanceWords.getD symbol [] ++ bits)) :
    ∃ c', fixedCodes.2.decode c = some (symbol, c') ∧ c'.At bits := by
  obtain ⟨hne, hleads⟩ := allLead_distanceWords.getD (length_distanceWords.symm ▸ hsymbol)
  exact CodeTree.decode_of_leads hne hleads hc

theorem readItem_copy {length distance : Nat} (hfits : (Item.copy length distance).Fits) {c : Cursor}
    {bits : List Bool} (hc : c.At (itemBits (.copy length distance) ++ bits)) :
    ∃ c', readItem fixedCodes.1 fixedCodes.2 c = some (.copy length distance, c') ∧ c'.At bits := by
  obtain ⟨hmin, hmax, hpos, hfar⟩ := hfits
  obtain ⟨least, index, extra, hlength, hat, hle, hlt⟩ := rangeOf_spec covers_lengthRanges
    (Nat.lt_succ_of_le hmax) ⟨_, rfl, hmin⟩
  obtain ⟨least', index', extra', hdistance, hat', hle', hlt'⟩ := rangeOf_spec covers_distanceRanges
    (Nat.lt_succ_of_le hfar) ⟨_, rfl, hpos⟩
  have hindex : index < 29 := (Array.getElem?_eq_some_iff.1 hat).1
  have hindex' : index' < 30 := (Array.getElem?_eq_some_iff.1 hat').1
  rw [itemBits, hlength, hdistance] at hc
  simp only [List.append_assoc] at hc
  obtain ⟨c₁, hsymbol, hc₁⟩ := decode_literalWords (by simp only [firstLength]; omega) hc
  obtain ⟨c₂, hread, hc₂⟩ := readRange_lowFirst hat hle hlt hc₁
  obtain ⟨c₃, hsymbol', hc₃⟩ := decode_distanceWords (by omega) hc₂
  obtain ⟨c₄, hread', hc₄⟩ := readRange_lowFirst hat' hle' hlt' hc₃
  refine ⟨c₄, ?_, hc₄⟩
  rw [readItem, hsymbol, Option.bind_some]
  dsimp only
  rw [if_neg (by simp only [firstLength, endOfBlock]; omega),
    if_neg (by simp only [firstLength, endOfBlock]; omega), readCopy, Nat.add_sub_cancel_left, hread,
    Option.bind_some]
  dsimp only
  rw [hsymbol', Option.bind_some]
  dsimp only
  rw [hread']
  rfl

theorem readItem_stop {c : Cursor} {bits : List Bool} (hc : c.At (itemBits .stop ++ bits)) :
    ∃ c', readItem fixedCodes.1 fixedCodes.2 c = some (.stop, c') ∧ c'.At bits := by
  rw [itemBits] at hc
  obtain ⟨c', hsymbol, hc'⟩ := decode_literalWords (by decide : endOfBlock < 288) hc
  refine ⟨c', ?_, hc'⟩
  rw [readItem, hsymbol]
  rfl

/-- **Every item is read back.** -/
theorem readItem_itemBits {item : Item} (hfits : item.Fits) {c : Cursor} {bits : List Bool}
    (hc : c.At (itemBits item ++ bits)) :
    ∃ c', readItem fixedCodes.1 fixedCodes.2 c = some (item, c') ∧ c'.At bits := by
  cases item with
  | literal byte =>
    have hlt := byte.toNat_lt
    rw [itemBits] at hc
    obtain ⟨c', hsymbol, hc'⟩ := decode_literalWords (Nat.lt_trans hlt (by decide)) hc
    refine ⟨c', ?_, hc'⟩
    rw [readItem, hsymbol, Option.bind_some]
    dsimp only
    rw [if_pos (show byte.toNat < endOfBlock from hlt), UInt8.ofNat_toNat]
  | copy length distance => exact readItem_copy hfits hc
  | stop => exact hfits.elim

theorem inflateItems_of_stop {literals distances : CodeTree} {c rest : Cursor}
    (h : readItem literals distances c = some (.stop, rest)) (out : Array UInt8) :
    inflateItems literals distances c out = some (out, rest) := by
  rw [inflateItems]
  split
  · next h' => cases h.symm.trans h'
  · next h' =>
    cases h.symm.trans h'
    rfl
  · next h' => cases h.symm.trans h'
  · next h' => cases h.symm.trans h'

theorem inflateItems_of_item {literals distances : CodeTree} {c rest : Cursor} {item : Item}
    (h : readItem literals distances c = some (item, rest)) (hitem : item.Fits) (out : Array UInt8) :
    inflateItems literals distances c out =
      inflateItems literals distances rest (item.write out) := by
  rw [inflateItems]
  split
  · next h' => cases h.symm.trans h'
  · next h' =>
    cases h.symm.trans h'
    exact hitem.elim
  · next h' =>
    cases h.symm.trans h'
    rfl
  · next h' =>
    cases h.symm.trans h'
    rfl

/-- **The items of a block are read up to its end.** -/
theorem inflateItems_itemBits {items : List Item} (hfits : ∀ item ∈ items, item.Fits) {c : Cursor}
    {bits : List Bool} (hc : c.At (items.flatMap itemBits ++ (itemBits .stop ++ bits)))
    (out : Array UInt8) :
    ∃ c', inflateItems fixedCodes.1 fixedCodes.2 c out = some (writeItems items out, c') ∧
      c'.At bits := by
  induction items generalizing c out with
  | nil =>
    rw [List.flatMap_nil, List.nil_append] at hc
    obtain ⟨c', hread, hc'⟩ := readItem_stop hc
    exact ⟨c', inflateItems_of_stop hread out, hc'⟩
  | cons item items ih =>
    have hitem := hfits item List.mem_cons_self
    rw [List.flatMap_cons, List.append_assoc] at hc
    obtain ⟨c₁, hread, hc₁⟩ := readItem_itemBits hitem hc
    rw [inflateItems_of_item hread hitem]
    exact ih (fun i hi => hfits i (List.mem_cons_of_mem _ hi)) hc₁ (item.write out)

end FilteredChunks.Deflate
