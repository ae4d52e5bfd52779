import FilteredChunks.EngineConfig
import FilteredChunks.Proofs.Checked
import FilteredChunks.Proofs.Text.Order
import Mathlib.Data.List.Induction
import Mathlib.Data.Nat.Digits.Defs

/-!
# Numbers of threads are read by value

A text writes a number if it has the decimal digits of that number, behind any number of zeros (`Writes`);
zero has no digits of its own, so the empty text writes it too.  The texts of ASCII digits are the ones
that write a number (`exists_writes_iff`), and each writes only one.  A program reads the bytes of a
text in 64 bits, one digit after the other, and gives up at the first overflow (`readBytes?`); as numbers
only grow by further digits, it gives up exactly where the number of the whole text is too large
(`foldlM_readDigit?_of_le`).
-/

namespace FilteredChunks.EngineConfig

/-! ### Numerals -/

/-- Zeros, and then the digits of a number. -/
def numeral (zeros n : Nat) : List Char :=
  List.replicate zeros '0' ++ ((Nat.digits 10 n).map Nat.digitChar).reverse

/-- A text that stands for a number. -/
def Writes (raw : String) (n : Nat) : Prop := ∃ zeros, raw.toList = numeral zeros n

/-- The byte of an ASCII digit. -/
def IsDigit (byte : UInt8) : Prop := '0'.toNat ≤ byte.toNat ∧ byte.toNat ≤ '9'.toNat

instance : DecidablePred IsDigit := fun _ => inferInstanceAs (Decidable (_ ∧ _))

/-! ### A reader in 64 bits -/

/-- Puts a digit behind those of a number, unless that overflows. -/
def append? (n digit : UInt64) : Option UInt64 := do
  let tens ← Checked.mul? n 10
  Checked.add? tens digit

/-- Reads one more digit of a number. -/
def readDigit? (n : UInt64) (byte : UInt8) : Option UInt64 :=
  append? n (UInt64.ofNat (byte.toNat - '0'.toNat))

/-- Reads a number of threads from the bytes of a text. -/
def readBytes? (bytes : Bytes) : Option Nat :=
  if ∃ byte ∈ bytes, ¬ IsDigit byte then none
  else if bytes = [] then some 1
  else (bytes.foldlM readDigit? 0).map fun n => max n.toNat 1

/-! ### Characters and bytes -/

theorem utf8EncodeChar_of_isDigit {c : Char} (h : c.isDigit = true) :
    String.utf8EncodeChar c = [UInt8.ofNat c.toNat] := by
  have hlt : c.toNat ≤ 127 := Nat.le_trans (Char.isDigit_iff_toNat.1 h).2 (by decide)
  rw [String.utf8EncodeChar]
  exact if_pos hlt

theorem toNat_ofNat_of_isDigit {c : Char} (h : c.isDigit = true) :
    (UInt8.ofNat c.toNat).toNat = c.toNat := by
  have hlt : c.toNat ≤ '9'.toNat := (Char.isDigit_iff_toNat.1 h).2
  exact UInt8.toNat_ofNat_of_lt' (Nat.lt_of_le_of_lt hlt (by decide))

theorem exists_not_isDigit {c : Char} (h : c.isDigit ≠ true) :
    ∃ byte ∈ String.utf8EncodeChar c, ¬ IsDigit byte := by
  -- the last of several bytes is at least 128
  have hlast : ¬ IsDigit (UInt8.ofNat (c.val.toNat % 64 + 128)) := by
    have hsize : UInt8.size = 256 := rfl
    have hbyte : (UInt8.ofNat (c.val.toNat % 64 + 128)).toNat = c.val.toNat % 64 + 128 :=
      UInt8.toNat_ofNat_of_lt' (by omega)
    have hnine : '9'.toNat = 57 := rfl
    rintro ⟨-, hle⟩
    omega
  unfold String.utf8EncodeChar
  dsimp only
  split_ifs with hone
  · have hbyte : (UInt8.ofNat c.val.toNat).toNat = c.toNat :=
      UInt8.toNat_ofNat_of_lt' (Nat.lt_of_le_of_lt hone (by decide))
    refine ⟨_, List.mem_singleton_self _, fun hdigit => h (Char.isDigit_iff_toNat.2 ?_)⟩
    rwa [IsDigit, hbyte] at hdigit
  all_goals exact ⟨_, by simp, hlast⟩

/-- The bytes of a text are digits exactly if its characters are. -/
theorem forall_isDigit_encode_iff (raw : String) :
    (∀ byte ∈ Utf8.encode raw, IsDigit byte) ↔ ∀ c ∈ raw.toList, c.isDigit = true := by
  rw [Utf8.encode_eq_flatMap]
  constructor
  · intro h c hc
    by_contra hnot
    obtain ⟨byte, hbyte, hdigit⟩ := exists_not_isDigit hnot
    exact hdigit (h byte (List.mem_flatMap.2 ⟨c, hc, hbyte⟩))
  · intro h byte hbyte
    obtain ⟨c, hc, hbyte⟩ := List.mem_flatMap.1 hbyte
    rw [utf8EncodeChar_of_isDigit (h c hc), List.mem_singleton] at hbyte
    subst hbyte
    rw [IsDigit, toNat_ofNat_of_isDigit (h c hc)]
    exact Char.isDigit_iff_toNat.1 (h c hc)

/-! ### Numbers and their digits -/

/-- The number that digits stand for behind those of another number. -/
def valueAfter (n : Nat) (digits : List Char) : Nat :=
  digits.foldl (fun n c => 10 * n + (c.toNat - '0'.toNat)) n

theorem decimalValue_eq (digits : List Char) : decimalValue digits = valueAfter 0 digits := rfl

theorem valueAfter_cons (n : Nat) (c : Char) (digits : List Char) :
    valueAfter n (c :: digits) = valueAfter (10 * n + (c.toNat - '0'.toNat)) digits := by
  rw [valueAfter, valueAfter, List.foldl_cons]

theorem le_valueAfter (n : Nat) (digits : List Char) : n ≤ valueAfter n digits := by
  induction digits generalizing n with
  | nil => exact Nat.le_refl n
  | cons c digits ih =>
    have hstep := ih (10 * n + (c.toNat - '0'.toNat))
    rw [valueAfter_cons]
    omega

theorem decimalValue_concat (digits : List Char) (c : Char) :
    decimalValue (digits ++ [c]) = 10 * decimalValue digits + (c.toNat - '0'.toNat) := by
  rw [decimalValue, List.foldl_append]
  rfl

theorem numeral_zero (zeros : Nat) : numeral zeros 0 = List.replicate zeros '0' := by
  rw [numeral, Nat.digits_zero, List.map_nil, List.reverse_nil, List.append_nil]

theorem numeral_concat (zeros : Nat) {n digit : Nat} (hdigit : digit < 10) (hpos : 0 < 10 * n + digit) :
    numeral zeros (10 * n + digit) = numeral zeros n ++ [digit.digitChar] := by
  have hdigits : Nat.digits 10 (10 * n + digit) = digit :: Nat.digits 10 n := by
    rw [Nat.add_comm, Nat.digits_add 10 (by decide) digit n hdigit (by omega)]
  rw [numeral, hdigits, List.map_cons, List.reverse_cons, ← List.append_assoc]
  rfl

theorem decimalValue_replicate (zeros : Nat) : decimalValue (List.replicate zeros '0') = 0 := by
  induction zeros with
  | zero => rfl
  | succ zeros ih =>
    rw [List.replicate_succ', decimalValue_concat, ih]
    rfl

theorem decimalValue_numeral (zeros n : Nat) : decimalValue (numeral zeros n) = n := by
  induction n using Nat.strongRecOn with
  | ind n ih =>
    rcases Nat.eq_zero_or_pos n with rfl | hpos
    · rw [numeral_zero, decimalValue_replicate]
    · have hdigit : n % 10 < 10 := Nat.mod_lt n (by decide)
      have hsplit : 10 * (n / 10) + n % 10 = n := Nat.div_add_mod n 10
      have hnumeral := numeral_concat zeros hdigit (hsplit.symm ▸ hpos)
      rw [hsplit] at hnumeral
      rw [hnumeral, decimalValue_concat, ih (n / 10) (by omega), Nat.toNat_digitChar_of_lt_ten hdigit]
      show 10 * (n / 10) + (48 + n % 10 - 48) = n
      omega

theorem sub_lt_of_isDigit {c : Char} (h : c.isDigit = true) : c.toNat - '0'.toNat < 10 := by
  obtain ⟨hzero, hnine⟩ := Char.isDigit_iff_toNat.1 h
  exact Nat.sub_lt_left_of_lt_add hzero (Nat.lt_succ_of_le hnine)

theorem digitChar_of_isDigit {c : Char} (h : c.isDigit = true) :
    (c.toNat - '0'.toNat).digitChar = c := by
  apply Char.toNat_inj.1
  rw [Nat.toNat_digitChar_of_lt_ten (sub_lt_of_isDigit h)]
  exact Nat.add_sub_of_le (Char.isDigit_iff_toNat.1 h).1

/-- Digits are a numeral of the number that they stand for. -/
theorem exists_numeral {digits : List Char} (h : ∀ c ∈ digits, c.isDigit = true) :
    ∃ zeros, digits = numeral zeros (decimalValue digits) := by
  induction digits using List.reverseRecOn with
  | nil => exact ⟨0, (numeral_zero 0).symm⟩
  | append_singleton digits c ih =>
    obtain ⟨zeros, hdigits⟩ := ih fun d hd => h d (List.mem_append_left _ hd)
    have hc : c.isDigit = true := h c (List.mem_append_right _ (List.mem_singleton_self c))
    have hchar := digitChar_of_isDigit hc
    have hlt := sub_lt_of_isDigit hc
    rw [decimalValue_concat]
    generalize c.toNat - '0'.toNat = digit at hchar hlt
    subst hchar
    rcases Nat.eq_zero_or_pos (10 * decimalValue digits + digit) with hzero | hpos
    · -- one more zero in front of a number that has no digits yet
      obtain ⟨hvalue, rfl⟩ : decimalValue digits = 0 ∧ digit = 0 := by omega
      rw [hvalue, numeral_zero] at hdigits
      refine ⟨zeros + 1, ?_⟩
      rw [hzero, numeral_zero, List.replicate_succ', ← hdigits]
      rfl
    · exact ⟨zeros, by rw [numeral_concat zeros hlt hpos, ← hdigits]⟩

theorem isDigit_of_mem_numeral {zeros n : Nat} {c : Char} (h : c ∈ numeral zeros n) :
    c.isDigit = true := by
  rcases List.mem_append.1 h with h | h
  · rw [List.eq_of_mem_replicate h]
    rfl
  · obtain ⟨digit, hdigit, rfl⟩ := List.mem_map.1 (List.mem_reverse.1 h)
    rw [Nat.isDigit_digitChar, decide_eq_true_eq]
    exact Nat.digits_lt_base (by decide) hdigit

theorem Writes.decimalValue_eq {raw : String} {n : Nat} (h : Writes raw n) :
    decimalValue raw.toList = n := by
  obtain ⟨zeros, hraw⟩ := h
  rw [hraw, decimalValue_numeral]

theorem Writes.isDigit {raw : String} {n : Nat} (h : Writes raw n) :
    ∀ c ∈ raw.toList, c.isDigit = true := by
  obtain ⟨zeros, hraw⟩ := h
  rw [hraw]
  exact fun c hc => isDigit_of_mem_numeral hc

theorem writes_decimalValue {raw : String} (h : ∀ c ∈ raw.toList, c.isDigit = true) :
    Writes raw (decimalValue raw.toList) := exists_numeral h

theorem Writes.unique {raw : String} {m n : Nat} (hm : Writes raw m) (hn : Writes raw n) : m = n :=
  hm.decimalValue_eq.symm.trans hn.decimalValue_eq

/-- **The texts that write a number are those of ASCII digits.** -/
theorem exists_writes_iff (raw : String) :
    (∃ n, Writes raw n) ↔ ∀ byte ∈ Utf8.encode raw, IsDigit byte := by
  rw [forall_isDigit_encode_iff]
  constructor
  · rintro ⟨n, hn⟩
    exact hn.isDigit
  · intro h
    exact ⟨_, writes_decimalValue h⟩

/-! ### What the reader reads -/

theorem exists_append? {n digit : UInt64} (h : 10 * n.toNat + digit.toNat < UInt64.size) :
    ∃ next, append? n digit = some next ∧ next.toNat = 10 * n.toNat + digit.toNat := by
  have hten : n.toNat * (10 : UInt64).toNat = 10 * n.toNat := Nat.mul_comm _ _
  obtain ⟨tens, hmul, htens⟩ := Checked.exists_mul? (hten ▸ Nat.lt_of_le_of_lt (Nat.le_add_right _ _) h)
  rw [hten] at htens
  rw [← htens] at h ⊢
  obtain ⟨next, hadd, hnext⟩ := Checked.exists_add? h
  refine ⟨next, ?_, hnext⟩
  rw [append?, hmul]
  exact hadd

/-- A number that is too large is no result, whether the product overflows or only the sum. -/
theorem append?_of_le {n digit : UInt64} (h : UInt64.size ≤ 10 * n.toNat + digit.toNat) :
    append? n digit = none := by
  have hten : n.toNat * (10 : UInt64).toNat = 10 * n.toNat := Nat.mul_comm _ _
  rw [append?]
  by_cases hover : UInt64.size ≤ n.toNat * (10 : UInt64).toNat
  · rw [Checked.mul?_of_le hover]
    rfl
  · obtain ⟨tens, hmul, htens⟩ := Checked.exists_mul? (Nat.not_le.1 hover)
    rw [hten] at htens
    rw [← htens] at h
    rw [hmul]
    exact Checked.add?_of_le h

theorem foldlM_readDigit?_cons {c : Char} (hc : c.isDigit = true) (digits : List Char) (n : UInt64) :
    ((c :: digits).flatMap String.utf8EncodeChar).foldlM readDigit? n =
      (append? n (UInt64.ofNat (c.toNat - '0'.toNat))).bind fun next =>
        (digits.flatMap String.utf8EncodeChar).foldlM readDigit? next := by
  rw [List.flatMap_cons, utf8EncodeChar_of_isDigit hc, List.singleton_append, List.foldlM_cons, readDigit?,
    toNat_ofNat_of_isDigit hc]
  rfl

theorem toNat_digit {c : Char} (hc : c.isDigit = true) :
    (UInt64.ofNat (c.toNat - '0'.toNat)).toNat = c.toNat - '0'.toNat :=
  UInt64.toNat_ofNat_of_lt' (Nat.lt_trans (sub_lt_of_isDigit hc) (by decide))

/-- **All digits of a number that 64 bits can hold are read.** -/
theorem exists_foldlM_readDigit? {digits : List Char} (hdigits : ∀ c ∈ digits, c.isDigit = true)
    (n : UInt64) (h : valueAfter n.toNat digits < UInt64.size) :
    ∃ value, (digits.flatMap String.utf8EncodeChar).foldlM readDigit? n = some value ∧
      value.toNat = valueAfter n.toNat digits := by
  induction digits generalizing n with
  | nil => exact ⟨n, rfl, rfl⟩
  | cons c digits ih =>
    have hc := hdigits c List.mem_cons_self
    rw [valueAfter_cons, ← toNat_digit hc] at h ⊢
    obtain ⟨next, hnext, hvalue⟩ := exists_append? (Nat.lt_of_le_of_lt (le_valueAfter _ digits) h)
    rw [← hvalue] at h ⊢
    rw [foldlM_readDigit?_cons hc, hnext, Option.bind_some]
    exact ih (fun d hd => hdigits d (List.mem_cons_of_mem _ hd)) next h

/-- **Of a number that 64 bits cannot hold, some digit overflows.** -/
theorem foldlM_readDigit?_of_le {digits : List Char} (hdigits : ∀ c ∈ digits, c.isDigit = true)
    (n : UInt64) (h : UInt64.size ≤ valueAfter n.toNat digits) :
    (digits.flatMap String.utf8EncodeChar).foldlM readDigit? n = none := by
  induction digits generalizing n with
  | nil => exact absurd n.toNat_lt (Nat.not_lt.2 h)
  | cons c digits ih =>
    have hc := hdigits c List.mem_cons_self
    rw [valueAfter_cons, ← toNat_digit hc] at h
    rw [foldlM_readDigit?_cons hc]
    by_cases hover :
        UInt64.size ≤ 10 * n.toNat + (UInt64.ofNat (c.toNat - '0'.toNat)).toNat
    · rw [append?_of_le hover, Option.bind_none]
    · obtain ⟨next, hnext, hvalue⟩ := exists_append? (Nat.not_le.1 hover)
      rw [← hvalue] at h
      rw [hnext, Option.bind_some]
      exact ih (fun d hd => hdigits d (List.mem_cons_of_mem _ hd)) next h

/-! ### Numbers of threads -/

theorem parseThreads_of_not_isDigit {raw : String} (h : ¬ ∀ c ∈ raw.toList, c.isDigit = true) :
    parseThreads raw = none := by
  rw [← List.all_eq_true] at h
  unfold parseThreads
  dsimp only
  rw [Bool.eq_false_iff.2 h, Bool.false_and, if_neg Bool.false_ne_true]

theorem parseThreads_of_isDigit {raw : String} (h : ∀ c ∈ raw.toList, c.isDigit = true) :
    parseThreads raw = if decimalValue raw.toList < UInt64.size then
      some (max (decimalValue raw.toList) 1) else none := by
  unfold parseThreads
  dsimp only
  rw [List.all_eq_true.2 h, Bool.true_and]
  simp only [decide_eq_true_eq]

theorem readBytes?_of_isDigit {bytes : Bytes} (h : ∀ byte ∈ bytes, IsDigit byte) :
    readBytes? bytes = (bytes.foldlM readDigit? 0).map fun n => max n.toNat 1 := by
  rw [readBytes?, if_neg (by rintro ⟨byte, hbyte, hdigit⟩; exact hdigit (h byte hbyte))]
  by_cases hempty : bytes = []
  · rw [if_pos hempty, hempty]
    rfl
  · rw [if_neg hempty]

/-- **Reading the bytes of a text in 64 bits gives the same number of threads.** -/
theorem readBytes?_encode (raw : String) : readBytes? (Utf8.encode raw) = parseThreads raw := by
  by_cases hdigits : ∀ byte ∈ Utf8.encode raw, IsDigit byte
  · have hchars := (forall_isDigit_encode_iff raw).1 hdigits
    rw [readBytes?_of_isDigit hdigits, parseThreads_of_isDigit hchars, Utf8.encode_eq_flatMap,
      decimalValue_eq]
    split
    case isTrue hfits =>
      obtain ⟨n, hread, hn⟩ := exists_foldlM_readDigit? hchars 0 hfits
      rw [hread, Option.map_some, hn]
      rfl
    case isFalse hover =>
      rw [foldlM_readDigit?_of_le hchars 0 (Nat.not_lt.1 hover), Option.map_none]
  · rw [parseThreads_of_not_isDigit (mt (forall_isDigit_encode_iff raw).2 hdigits), readBytes?, if_pos]
    simpa only [not_forall, exists_prop] using hdigits

theorem parseThreads_of_writes {raw : String} {n : Nat} (h : Writes raw n) :
    parseThreads raw = if n < UInt64.size then some (max n 1) else none := by
  rw [parseThreads_of_isDigit h.isDigit, h.decimalValue_eq]

/-- **A text is refused for one of two reasons**: a byte that is no digit, or a number that 64 bits cannot
hold. -/
theorem parseThreads_eq_none_iff (raw : String) :
    parseThreads raw = none ↔
      (∃ byte ∈ Utf8.encode raw, ¬ IsDigit byte) ∨ ∃ n, Writes raw n ∧ UInt64.size ≤ n := by
  by_cases hdigits : ∀ byte ∈ Utf8.encode raw, IsDigit byte
  · obtain ⟨n, hn⟩ := (exists_writes_iff raw).2 hdigits
    rw [parseThreads_of_writes hn]
    constructor
    · intro h
      refine Or.inr ⟨n, hn, Nat.not_lt.1 fun hlt => ?_⟩
      rw [if_pos hlt] at h
      cases h
    · rintro (⟨byte, hbyte, hnot⟩ | ⟨m, hm, hle⟩)
      · exact absurd (hdigits byte hbyte) hnot
      · rw [if_neg (Nat.not_lt.2 (hn.unique hm ▸ hle))]
  · rw [parseThreads_of_not_isDigit (mt (forall_isDigit_encode_iff raw).2 hdigits)]
    simp only [not_forall, exists_prop] at hdigits
    exact ⟨fun _ => Or.inl hdigits, fun _ => rfl⟩

theorem one_le_of_parseThreads {raw : String} {n : Nat} (h : parseThreads raw = some n) : 1 ≤ n := by
  unfold parseThreads at h
  dsimp only at h
  split at h
  case isTrue =>
    obtain rfl := Option.some.inj h
    exact Nat.le_max_right _ _
  case isFalse => cases h

/-! ### Main statement -/

/-- What reading a number of threads makes of a text. -/
structure ReadsByValue (raw : String) : Prop where
  writes : (∃ n, Writes raw n) ↔ ∀ byte ∈ Utf8.encode raw, IsDigit byte
  unique : ∀ m n, Writes raw m → Writes raw n → m = n
  empty : raw = "" → Writes raw 0
  refuses : parseThreads raw = none ↔
    (∃ byte ∈ Utf8.encode raw, ¬ IsDigit byte) ∨ ∃ n, Writes raw n ∧ UInt64.size ≤ n
  accepts : ∀ n, Writes raw n → n < UInt64.size → parseThreads raw = some (max n 1)
  /-- Reading the bytes in 64 bits, up to the first overflow, comes to the same. -/
  inWords : readBytes? (Utf8.encode raw) = parseThreads raw

/-- What variables make of the number of threads. -/
structure SetsThreads (lookup : String → Option String) : Prop where
  positive : 1 ≤ (ofLookup lookup).threads
  unset : lookup threadVariable = none → (ofLookup lookup).threads = 1
  refused : ∀ raw, lookup threadVariable = some raw → parseThreads raw = none →
    (ofLookup lookup).threads = 1
  accepted : ∀ raw n, lookup threadVariable = some raw → parseThreads raw = some n →
    (ofLookup lookup).threads = n

theorem readsByValue (raw : String) : ReadsByValue raw where
  writes := exists_writes_iff raw
  unique _ _ hm hn := hm.unique hn
  empty h := ⟨0, by rw [h, numeral_zero]; rfl⟩
  refuses := parseThreads_eq_none_iff raw
  accepts n hn hlt := by rw [parseThreads_of_writes hn, if_pos hlt]
  inWords := readBytes?_encode raw

theorem threads_ofLookup (lookup : String → Option String) :
    (ofLookup lookup).threads = ((lookup threadVariable).bind parseThreads).getD 1 := rfl

theorem setsThreads (lookup : String → Option String) : SetsThreads lookup where
  positive := by
    rw [threads_ofLookup]
    cases hthreads : (lookup threadVariable).bind parseThreads with
    | none => exact Nat.le_refl 1
    | some n =>
      obtain ⟨raw, -, hparse⟩ := Option.bind_eq_some_iff.1 hthreads
      exact one_le_of_parseThreads hparse
  unset h := by rw [threads_ofLookup, h]; rfl
  refused raw h hparse := by rw [threads_ofLookup, h, Option.bind_some, hparse]; rfl
  accepted raw n h hparse := by rw [threads_ofLookup, h, Option.bind_some, hparse]; rfl

/-- **Numbers of threads are read by value.**  A text is refused if it has a byte that is no digit or if
its number is 2^64 or more; any other gives its number, or one for zero.  A configuration has at least one
thread, and just one if the variable is not set or its text is refused. -/
theorem threads_by_value :
    (∀ raw, ReadsByValue raw) ∧ ∀ lookup, SetsThreads lookup :=
  ⟨readsByValue, setsThreads⟩

/-- Zeros in front do not count, however many digits they make; a digit of another script is none. -/
example : parseThreads "0000018446744073709551615" = some 18446744073709551615 ∧
    parseThreads "18446744073709551616" = none ∧ parseThreads "1٢" = none := by
  decide +kernel

end FilteredChunks.EngineConfig
