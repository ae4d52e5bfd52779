import FilteredChunks.Proofs.Filter.Lossless
import Mathlib.Data.List.ProdSigma

/-!
# Shuffling copies byte by byte

Shuffling is the transposition of a table.  A program does it in two nested loops, copying one byte in
each turn, with positions that are words of 64 bits.  Here are these loops (`looped?`), where an overflow
or a position out of range is no result.  They have the result of `transform` (`looped?_eq`): what the
turns so far have written are cells of the turned table (`foldlM_set`), and each cell has its turn
(`exists_turn`).  The main statement, `shuffled_transform`, says where shuffling puts each byte, and that
undoing it gives the bytes back.
-/

namespace FilteredChunks.Shuffle

/-! ### The loops -/

/-- A number that fits into a word. -/
def word? (n : Nat) : Option Nat := if n < UInt64.size then some n else none

/-- The position of a cell in rows of `cols` cells, if nothing overflows. -/
def position? (cols row col : Nat) : Option Nat := do
  let start ← word? (row * cols)
  word? (start + col)

/-- Copies one byte of one element, unless a position overflows or is out of range. -/
def copy? (reverse : Bool) (elements size : Nat) (input output : Bytes) (turn : Nat × Nat) :
    Option Bytes := do
  let whole ← position? size turn.1 turn.2
  let grouped ← position? elements turn.2 turn.1
  let byte ← input[if reverse then grouped else whole]?
  let target := if reverse then whole else grouped
  if target < output.length then some (output.set target byte) else none

/-- All bytes of the first element, then those of the second one, and so on. -/
def turns (elements size : Nat) : List (Nat × Nat) := List.range elements ×ˢ List.range size

/-- Copies what is behind the whole elements; there must be as much room. -/
def copyRest? (body : Nat) (input output : Bytes) : Option Bytes := do
  let rest ← Bytes.slice? input body input.length
  let room ← Bytes.slice? output body output.length
  if room.length = rest.length then some (output.take body ++ rest) else none

/-- Shuffles by elements of the size that is given, or undoes it, byte by byte. -/
def looped? (flags : FilterFlags) (word : UInt32) (nbytes : Nat) (data : Bytes) :
    Option (Nat × Bytes) := do
  let size := word.toNat
  let n := min nbytes data.length
  let elements := n / size
  if size ≤ 1 ∨ elements ≤ 1 then some (n, data)
  else
    let body ← word? (elements * size)
    let input ← Bytes.slice? data 0 n
    let output ← (turns elements size).foldlM
      (copy? (flags.contains .reverse) elements size input) (List.replicate n 0)
    let left ← copyRest? body input output
    some (n, left)

/-! ### What the loops do -/

/-- Where a turn takes its byte. -/
def source (reverse : Bool) (elements size : Nat) (turn : Nat × Nat) : Nat :=
  if reverse then turn.2 * elements + turn.1 else turn.1 * size + turn.2

/-- Where a turn puts its byte. -/
def target (reverse : Bool) (elements size : Nat) (turn : Nat × Nat) : Nat :=
  if reverse then turn.1 * size + turn.2 else turn.2 * elements + turn.1

variable {reverse : Bool} {elements size : Nat} {turn : Nat × Nat}

theorem mem_turns_iff : turn ∈ turns elements size ↔ turn.1 < elements ∧ turn.2 < size := by
  rw [turns, List.mem_product, List.mem_range, List.mem_range]

theorem position?_of_lt {cols row col : Nat} (h : row * cols + col < UInt64.size) :
    position? cols row col = some (row * cols + col) := by
  have hstart : row * cols < UInt64.size := Nat.lt_of_le_of_lt (Nat.le_add_right _ _) h
  rw [position?, word?, if_pos hstart]
  exact if_pos h

theorem source_lt (reverse : Bool) (h : turn ∈ turns elements size) :
    source reverse elements size turn < elements * size := by
  obtain ⟨helement, hbyte⟩ := mem_turns_iff.1 h
  unfold source
  split
  · exact Nat.mul_comm size elements ▸ cell_lt hbyte helement
  · exact cell_lt helement hbyte

theorem target_lt (reverse : Bool) (h : turn ∈ turns elements size) :
    target reverse elements size turn < elements * size := by
  obtain ⟨helement, hbyte⟩ := mem_turns_iff.1 h
  unfold target
  split
  · exact cell_lt helement hbyte
  · exact Nat.mul_comm size elements ▸ cell_lt hbyte helement

/-- **One turn**: no position overflows, none is out of range. -/
theorem copy?_eq {input output : Bytes} {byte : UInt8} (h : turn ∈ turns elements size)
    (hsize : elements * size < UInt64.size)
    (hbyte : input[source reverse elements size turn]? = some byte)
    (houtput : elements * size ≤ output.length) :
    copy? reverse elements size input output turn =
      some (output.set (target reverse elements size turn) byte) := by
  have hwhole : position? size turn.1 turn.2 = some (turn.1 * size + turn.2) :=
    position?_of_lt (Nat.lt_trans (source_lt false h) hsize)
  have hgrouped : position? elements turn.2 turn.1 = some (turn.2 * elements + turn.1) :=
    position?_of_lt (Nat.lt_trans (source_lt true h) hsize)
  have htarget : target reverse elements size turn < output.length :=
    Nat.lt_of_lt_of_le (target_lt reverse h) houtput
  unfold source at hbyte
  unfold target at htarget ⊢
  simp only [copy?, hwhole, hgrouped, hbyte, htarget, Option.bind_eq_bind, Option.bind_some, if_true]

/-- **All turns**: where a byte was put there is the one of the turned table, and the others are as they
were. -/
theorem foldlM_set {α : Type} {f : Bytes → α → Option Bytes} (place : α → Nat) {turned : Bytes}
    {ts : List α} (output : Bytes) (hlength : turned.length ≤ output.length)
    (h : ∀ t ∈ ts, ∃ byte, turned[place t]? = some byte ∧
      ∀ before : Bytes, before.length = output.length →
        f before t = some (before.set (place t) byte)) :
    ∃ left, ts.foldlM f output = some left ∧ left.length = output.length ∧
      (∀ p ∈ ts.map place, left[p]? = turned[p]?) ∧ ∀ p ∉ ts.map place, left[p]? = output[p]? := by
  induction ts generalizing output with
  | nil =>
    refine ⟨output, rfl, rfl, fun p hp => ?_, fun _ _ => rfl⟩
    cases hp
  | cons t ts ih =>
    obtain ⟨byte, hbyte, hstep⟩ := h t List.mem_cons_self
    have hset : (output.set (place t) byte).length = output.length := List.length_set
    obtain ⟨left, hleft, hleftLength, hwritten, hothers⟩ := ih (output.set (place t) byte)
      (by rwa [hset]) (by rw [hset]; exact fun t' ht' => h t' (List.mem_cons_of_mem t ht'))
    refine ⟨left, ?_, hleftLength.trans hset, fun p hp => ?_, fun p hp => ?_⟩
    · rw [List.foldlM_cons, hstep output rfl]
      exact hleft
    · by_cases hp' : p ∈ ts.map place
      · exact hwritten p hp'
      · -- the byte of this turn is not written over
        obtain rfl : p = place t := (List.mem_cons.1 hp).resolve_right hp'
        have hplace : place t < turned.length := (List.getElem?_eq_some_iff.1 hbyte).1
        rw [hothers _ hp', List.getElem?_set_self (Nat.lt_of_lt_of_le hplace hlength), hbyte]
    · obtain ⟨hne, hp'⟩ := not_or.1 (fun hor => hp (List.mem_cons.2 hor))
      rw [hothers p hp', List.getElem?_set_ne (Ne.symm hne)]

theorem exists_turn (reverse : Bool) {p : Nat} (hp : p < elements * size) :
    ∃ turn ∈ turns elements size, target reverse elements size turn = p := by
  have helements : 0 < elements := Nat.pos_of_lt_mul_right hp
  have hsize : 0 < size := Nat.pos_of_lt_mul_left hp
  cases reverse with
  | true =>
    refine ⟨(p / size, p % size), mem_turns_iff.2 ⟨?_, Nat.mod_lt p hsize⟩, ?_⟩
    · exact Nat.div_lt_of_lt_mul (Nat.mul_comm elements size ▸ hp)
    · exact Nat.div_add_mod' p size
  | false =>
    refine ⟨(p % elements, p / elements), mem_turns_iff.2 ⟨Nat.mod_lt p helements, ?_⟩, ?_⟩
    · exact Nat.div_lt_of_lt_mul hp
    · exact Nat.div_add_mod' p elements

theorem exists_turned (reverse : Bool) {input : Bytes} (h : elements * size ≤ input.length) :
    ∃ turned, (if reverse = true then transpose? size elements input
        else transpose? elements size input) = some turned ∧
      turned.length = elements * size ∧
      ∀ turn ∈ turns elements size, turned[target reverse elements size turn]? =
        input[source reverse elements size turn]? := by
  cases reverse with
  | true =>
    obtain ⟨turned, hturned, hlength, hcells⟩ :=
      transpose?_of_le (Nat.mul_comm elements size ▸ h : size * elements ≤ input.length)
    refine ⟨turned, hturned, hlength.trans (Nat.mul_comm _ _), fun turn hturn => ?_⟩
    obtain ⟨helement, hbyte⟩ := mem_turns_iff.1 hturn
    exact hcells turn.2 hbyte turn.1 helement
  | false =>
    obtain ⟨turned, hturned, hlength, hcells⟩ := transpose?_of_le h
    refine ⟨turned, hturned, hlength, fun turn hturn => ?_⟩
    obtain ⟨helement, hbyte⟩ := mem_turns_iff.1 hturn
    exact hcells turn.1 helement turn.2 hbyte

theorem exists_cells (flags : FilterFlags) (words : List UInt32) {word : UInt32} {nbytes n : Nat}
    {data : Bytes} (hn : min nbytes data.length = n)
    (h : ¬ (word.toNat ≤ 1 ∨ n / word.toNat ≤ 1)) :
    ∃ turned, turned.length = n / word.toNat * word.toNat ∧
      (∀ turn ∈ turns (n / word.toNat) word.toNat,
        turned[target (flags.contains .reverse) (n / word.toNat) word.toNat turn]? =
          (data.take n)[source (flags.contains .reverse) (n / word.toNat) word.toNat turn]?) ∧
      transform flags (word :: words) nbytes data =
        .produced n (turned ++ (data.take n).drop (n / word.toNat * word.toNat)) := by
  have hinput : n / word.toNat * word.toNat ≤ (data.take n).length := by
    have := Nat.div_mul_le_self n word.toNat
    rw [List.length_take]
    omega
  obtain ⟨turned, hturned, hlength, htransform⟩ := transform_of_lt flags words hn h
  obtain ⟨turned', hturned', -, hcells⟩ := exists_turned (flags.contains .reverse) hinput
  obtain rfl : turned' = turned := Option.some.inj (hturned'.symm.trans hturned)
  exact ⟨turned', hlength, hcells, htransform⟩

/-- The loops over a table write the turned table, as no cell is left out. -/
theorem foldlM_copy {n : Nat} {input turned : Bytes} (hsize : elements * size < UInt64.size)
    (hn : elements * size ≤ n) (hlength : turned.length = elements * size)
    (hcells : ∀ turn ∈ turns elements size,
      turned[target reverse elements size turn]? = input[source reverse elements size turn]?) :
    ∃ output, (turns elements size).foldlM (copy? reverse elements size input)
        (List.replicate n 0) = some output ∧
      output.length = n ∧ output.take (elements * size) = turned := by
  have hroom : (List.replicate n (0 : UInt8)).length = n := List.length_replicate
  have hturns : ∀ turn ∈ turns elements size,
      ∃ byte, turned[target reverse elements size turn]? = some byte ∧
        ∀ before : Bytes, before.length = (List.replicate n (0 : UInt8)).length →
          copy? reverse elements size input before turn =
            some (before.set (target reverse elements size turn) byte) := by
    intro turn hturn
    have hcell := hcells turn hturn
    have hlt : target reverse elements size turn < turned.length :=
      hlength ▸ target_lt reverse hturn
    rw [List.getElem?_eq_getElem hlt] at hcell
    refine ⟨_, List.getElem?_eq_getElem hlt, fun before hbefore => ?_⟩
    exact copy?_eq hturn hsize hcell.symm (by rwa [hbefore, hroom])
  obtain ⟨output, hloops, houtput, hwritten, -⟩ := foldlM_set
    (target reverse elements size) (List.replicate n 0) (by rwa [hlength, hroom]) hturns
  rw [hroom] at houtput
  refine ⟨output, hloops, houtput, List.ext_getElem? fun p => ?_⟩
  by_cases hp : p < elements * size
  · obtain ⟨turn, hturn, htarget⟩ := exists_turn reverse hp
    rw [List.getElem?_take_of_lt hp]
    exact hwritten p (htarget ▸ List.mem_map_of_mem hturn)
  · rw [List.getElem?_eq_none (by rw [List.length_take]; omega),
      List.getElem?_eq_none (by rw [hlength]; omega)]

theorem copyRest?_eq {body : Nat} {input output : Bytes} (hbody : body ≤ input.length)
    (hlength : output.length = input.length) :
    copyRest? body input output = some (output.take body ++ input.drop body) := by
  unfold copyRest?
  rw [Bytes.slice?_of_le hbody (Nat.le_refl _), Bytes.slice?_of_le (hlength ▸ hbody) (Nat.le_refl _)]
  simp only [Option.bind_eq_bind, Option.bind_some]
  rw [List.take_length, List.take_length,
    if_pos (by rw [List.length_drop, List.length_drop, hlength])]

/-- **The loops have the result of the transposition**: nothing overflows in them, and no position is out
of range. -/
theorem looped?_eq (flags : FilterFlags) (word : UInt32) (words : List UInt32) (nbytes : Nat)
    {data : Bytes} (hdata : data.length ≤ Bytes.maxLength) :
    ∃ left, transform flags (word :: words) nbytes data = .produced (min nbytes data.length) left ∧
      looped? flags word nbytes data = some (min nbytes data.length, left) := by
  have hn : min nbytes data.length ≤ data.length := Nat.min_le_right _ _
  unfold looped?
  dsimp only
  generalize hmin : min nbytes data.length = n at hn
  by_cases hfew : word.toNat ≤ 1 ∨ n / word.toNat ≤ 1
  · exact ⟨data, transform_of_le flags words hmin hfew, if_pos hfew⟩
  have hbody : n / word.toNat * word.toNat ≤ n := Nat.div_mul_le_self _ _
  have hinput : (data.take n).length = n := List.length_take_of_le hn
  have hword : n / word.toNat * word.toNat < UInt64.size :=
    Nat.lt_of_le_of_lt (Nat.le_trans hbody (Nat.le_trans hn hdata)) (by decide)
  obtain ⟨turned, hlength, hcells, htransform⟩ := exists_cells flags words hmin hfew
  obtain ⟨output, hloops, houtput, htable⟩ := foldlM_copy hword hbody hlength hcells
  refine ⟨_, htransform, ?_⟩
  rw [if_neg hfew, word?, if_pos hword, Bytes.slice?_of_le (Nat.zero_le _) hn, List.drop_zero]
  simp only [Option.bind_eq_bind, Option.bind_some]
  rw [hloops]
  simp only [Option.bind_some]
  rw [copyRest?_eq (by rwa [hinput]) (houtput.trans hinput.symm), htable]
  rfl

/-! ### Where each byte goes -/

/-- What shuffling by elements of `size` bytes leaves of a buffer of which `n` bytes count. -/
structure Shuffled (size n : Nat) (data left : Bytes) : Prop where
  length : 1 < size → 1 < n / size → left.length = n
  grouped : 1 < size → 1 < n / size → ∀ element < n / size, ∀ byte < size,
    left[byte * (n / size) + element]? = data[element * size + byte]?
  rest : 1 < size → 1 < n / size →
    left.drop (n / size * size) = (data.take n).drop (n / size * size)
  untouched : ¬ (1 < size ∧ 1 < n / size) → left = data

theorem shuffled_of_transform {flags : FilterFlags} (hflags : flags.contains .reverse = false)
    (words : List UInt32) {word : UInt32} {nbytes n : Nat} {data left : Bytes}
    (hn : min nbytes data.length = n)
    (h : transform flags (word :: words) nbytes data = .produced n left) :
    Shuffled word.toNat n data left := by
  by_cases hfew : word.toNat ≤ 1 ∨ n / word.toNat ≤ 1
  · rw [transform_of_le flags words hn hfew] at h
    cases h
    exact ⟨by omega, by omega, by omega, fun _ => rfl⟩
  have hbody : n / word.toNat * word.toNat ≤ n := Nat.div_mul_le_self _ _
  have hinput : (data.take n).length = n := by
    rw [List.length_take]
    omega
  obtain ⟨turned, hlength, hcells, htransform⟩ := exists_cells flags words hn hfew
  rw [htransform] at h
  cases h
  refine ⟨fun _ _ => ?_, fun _ _ element helement byte hbyte => ?_, fun _ _ => ?_, fun hnot => ?_⟩
  · rw [List.length_append, hlength, List.length_drop, hinput]
    omega
  · have hturn : (element, byte) ∈ turns (n / word.toNat) word.toNat :=
      mem_turns_iff.2 ⟨helement, hbyte⟩
    have hcell := hcells _ hturn
    have htarget : target (flags.contains .reverse) (n / word.toNat) word.toNat (element, byte) <
        turned.length := hlength ▸ target_lt _ hturn
    have hsource : source (flags.contains .reverse) (n / word.toNat) word.toNat (element, byte) < n :=
      Nat.lt_of_lt_of_le (source_lt _ hturn) hbody
    rw [hflags] at hcell htarget hsource
    rw [List.getElem?_take_of_lt hsource] at hcell
    exact (List.getElem?_append_left htarget).trans hcell
  · rw [List.drop_left' hlength]
  · omega

/-- **Shuffling is a transposition that can be undone.**  Of `n` bytes that count, a call forward with
elements of any size gives `n`.  If there are several elements of several bytes, it leaves `n` bytes:
byte `b` of element `i` is at position `b * (n / size) + i`, and what is behind the whole elements is
where it was; otherwise it leaves the buffer as it is.  A call in reverse, of any buffer that begins with
these `n` bytes, gives `n` and leaves the bytes that there were.  Neither comes to a position that is out
of range or overflows a word. -/
theorem shuffled_transform {forward backward : FilterFlags}
    (hforward : forward.contains .reverse = false) (hbackward : backward.contains .reverse = true)
    (word : UInt32) (words words' : List UInt32) (nbytes : Nat) {data : Bytes}
    (hdata : data.length ≤ Bytes.maxLength) :
    ∃ left,
      transform forward (word :: words) nbytes data = .produced (min nbytes data.length) left ∧
      looped? forward word nbytes data = some (min nbytes data.length, left) ∧
      Shuffled word.toNat (min nbytes data.length) data left ∧
      ∀ given : Bytes, given.length ≤ Bytes.maxLength →
        left.take (min nbytes data.length) <+: given →
        ∃ restored,
          transform backward (word :: words') (min nbytes data.length) given =
            .produced (min nbytes data.length) restored ∧
          looped? backward word (min nbytes data.length) given =
            some (min nbytes data.length, restored) ∧
          restored.take (min nbytes data.length) = data.take (min nbytes data.length) := by
  obtain ⟨left, htransform, hloops⟩ := looped?_eq forward word words nbytes hdata
  refine ⟨left, htransform, hloops, shuffled_of_transform hforward words rfl htransform,
    fun given hgivenLength hgiven => ?_⟩
  obtain ⟨restored, hrestored, hprefix⟩ :=
    transform_transform hforward hbackward words words' rfl htransform hgiven
  obtain ⟨restored', hrestored', hloops'⟩ :=
    looped?_eq backward word words' (min nbytes data.length) hgivenLength
  rw [hrestored] at hrestored'
  obtain ⟨hcount, rfl⟩ := Reply.produced.inj hrestored'
  rw [← hcount] at hloops'
  refine ⟨restored, hrestored, hloops', ?_⟩
  have hlength : (data.take (min nbytes data.length)).length = min nbytes data.length :=
    List.length_take_of_le (Nat.min_le_right _ _)
  have htake := List.prefix_iff_eq_take.1 hprefix
  rw [hlength] at htake
  exact htake.symm

/-- Of six bytes five count, which are two elements of two bytes and one byte more. -/
theorem shuffled_transform_pair :
    let data : Bytes := [0xA1, 0xA2, 0xB1, 0xB2, 0xCC, 0xDD]
    let left : Bytes := [0xA1, 0xB1, 0xA2, 0xB2, 0xCC]
    FilterFlags.mandatory.contains .reverse = false ∧
      FilterFlags.reverse.contains .reverse = true ∧ data.length ≤ Bytes.maxLength ∧
      transform .mandatory [2] 5 data = .produced 5 left ∧
      looped? .mandatory 2 5 data = some (5, left) ∧ Shuffled 2 5 data left ∧
      ∃ restored, transform .reverse [2] 5 (left ++ [0xEE]) = .produced 5 restored ∧
        restored.take 5 = data.take 5 := by
  intro data left
  have hforward : FilterFlags.mandatory.contains .reverse = false := by decide
  have hbackward : FilterFlags.reverse.contains .reverse = true := by decide
  have hdata : data.length ≤ Bytes.maxLength := by decide
  have hloops : looped? .mandatory 2 5 data = some (5, left) := by decide
  obtain ⟨left', htransform, hloops', hshuffled, hrestored⟩ :=
    shuffled_transform hforward hbackward 2 [] [] 5 hdata
  obtain rfl : left = left' := (Prod.mk.inj (Option.some.inj (hloops.symm.trans hloops'))).2
  obtain ⟨restored, hback, -, htake⟩ :=
    hrestored (left ++ [0xEE]) (by decide) (List.prefix_append _ _)
  exact ⟨hforward, hbackward, hdata, htransform, hloops, hshuffled, restored, hback, htake⟩

end FilteredChunks.Shuffle
