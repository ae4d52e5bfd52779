import FilteredChunks.Builtin
import FilteredChunks.Plugin.Library
import Mathlib.Tactic.Common

/-!
# Codecs that stay within their buffers

A codec is *bounded* (`Codec.IsBounded`) if no call of it goes out of its buffer: it reads no byte that
is not there and tells of no more bytes than it leaves.  The built-in filters are bounded as long as
compressing never gives nothing at all, and so is the codec of any plugin function whatsoever
(`isBounded_of_isGuarded`).
-/

namespace FilteredChunks

/-- **Bounded codecs.**  The calls are those with a count within the buffer; forward calls have
definition flags and something to work on. -/
structure Codec.IsBounded (c : Codec) : Prop where
  /-- A forward call leaves the bytes that it tells of, and if it fails the buffer as it was. -/
  forward : ∀ (flags : FilterFlags) (words : List UInt32) (nbytes : Nat) (data : Bytes),
    flags.isDefinition = true → 0 < nbytes → nbytes ≤ data.length →
    ∃ count left, c.transform flags words nbytes data = .produced count left ∧
      count ≤ left.length ∧ (count = 0 → left = data)
  /-- A reverse call leaves the bytes that it tells of. -/
  backward : ∀ (flags : FilterFlags) (words : List UInt32) (nbytes : Nat) (data : Bytes),
    flags.contains .reverse = true → nbytes ≤ data.length →
    ∃ count left, c.transform flags words nbytes data = .produced count left ∧
      count ≤ left.length

/-- Compressing at a level that there is never gives nothing at all: a stream has a header. -/
def Compression.HasHeader [Compression] : Prop :=
  ∀ (level : Nat) (bytes output : Bytes), level ≤ DeflateFilter.maxLevel →
    compress level bytes = some output → output ≠ []

/-! ### The built-in filters -/

theorem Shuffle.transform_of_le (flags : FilterFlags) (words : List UInt32) {word : UInt32}
    {nbytes n : Nat} {data : Bytes} (hn : min nbytes data.length = n)
    (h : word.toNat ≤ 1 ∨ n / word.toNat ≤ 1) :
    transform flags (word :: words) nbytes data = .produced n data := by
  unfold transform
  dsimp only
  rw [hn, if_pos h]

theorem Shuffle.transform_of_lt (flags : FilterFlags) (words : List UInt32) {word : UInt32}
    {nbytes n : Nat} {data : Bytes} (hn : min nbytes data.length = n)
    (h : ¬ (word.toNat ≤ 1 ∨ n / word.toNat ≤ 1)) :
    ∃ turned, (if flags.contains .reverse = true
        then transpose? word.toNat (n / word.toNat) (data.take n)
        else transpose? (n / word.toNat) word.toNat (data.take n)) = some turned ∧
      turned.length = n / word.toNat * word.toNat ∧
      transform flags (word :: words) nbytes data =
        .produced n (turned ++ (data.take n).drop (n / word.toNat * word.toNat)) := by
  have hbody : n / word.toNat * word.toNat ≤ n := Nat.div_mul_le_self _ _
  have hinput : (data.take n).length = n := by
    rw [List.length_take]
    omega
  obtain ⟨turned, hturned, hlength⟩ : ∃ turned, (if flags.contains .reverse = true
        then transpose? word.toNat (n / word.toNat) (data.take n)
        else transpose? (n / word.toNat) word.toNat (data.take n)) = some turned ∧
      turned.length = n / word.toNat * word.toNat := by
    split
    · have hcells : word.toNat * (n / word.toNat) ≤ (data.take n).length := by
        rwa [hinput, Nat.mul_comm]
      obtain ⟨turned, hturned, hlength, -⟩ := transpose?_of_le hcells
      exact ⟨turned, hturned, hlength.trans (Nat.mul_comm _ _)⟩
    · have hcells : n / word.toNat * word.toNat ≤ (data.take n).length := by rwa [hinput]
      obtain ⟨turned, hturned, hlength, -⟩ := transpose?_of_le hcells
      exact ⟨turned, hturned, hlength⟩
  refine ⟨turned, hturned, hlength, ?_⟩
  unfold transform
  dsimp only
  rw [hn, if_neg h, hturned, Bytes.slice?_of_le hbody (Nat.le_of_eq hinput.symm),
    List.take_of_length_le (Nat.le_of_eq hinput)]

theorem Shuffle.transform_cons (flags : FilterFlags) (word : UInt32) (words : List UInt32)
    (nbytes : Nat) (data : Bytes) :
    ∃ left, transform flags (word :: words) nbytes data = .produced (min nbytes data.length) left ∧
      min nbytes data.length ≤ left.length ∧ (min nbytes data.length = 0 → left = data) := by
  have hn : min nbytes data.length ≤ data.length := Nat.min_le_right _ _
  generalize hmin : min nbytes data.length = n at hn
  by_cases h : word.toNat ≤ 1 ∨ n / word.toNat ≤ 1
  · exact ⟨data, transform_of_le flags words hmin h, hn, fun _ => rfl⟩
  · obtain ⟨turned, -, hlength, htransform⟩ := transform_of_lt flags words hmin h
    refine ⟨_, htransform, ?_, fun h0 => ?_⟩
    · rw [List.length_append, hlength, List.length_drop, List.length_take]
      omega
    · rw [h0, Nat.zero_div] at h
      omega

theorem Shuffle.isBounded : Shuffle.codec.IsBounded := by
  refine ⟨fun flags words nbytes data _ hpos hle => ?_, fun flags words nbytes data _ hle => ?_⟩
  · cases words with
    | nil => exact ⟨0, data, rfl, Nat.zero_le _, fun _ => rfl⟩
    | cons word words =>
      obtain ⟨left, h, hlength, hkept⟩ := transform_cons flags word words nbytes data
      exact ⟨_, left, h, hlength, hkept⟩
  · cases words with
    | nil => exact ⟨0, data, rfl, Nat.zero_le _⟩
    | cons word words =>
      obtain ⟨left, h, hlength, -⟩ := transform_cons flags word words nbytes data
      exact ⟨_, left, h, hlength⟩

theorem Fletcher32.transform_forward {flags : FilterFlags} (hflags : flags.contains .reverse = false)
    (words : List UInt32) (nbytes : Nat) (data : Bytes) :
    transform flags words nbytes data = .produced (min nbytes data.length + width)
      (data.take (min nbytes data.length) ++
        Bytes.littleEndian width (checksum (data.take (min nbytes data.length)))) := by
  unfold transform
  dsimp only
  rw [hflags, Bytes.slice?_of_le (Nat.zero_le _) (Nat.min_le_right _ _)]
  rfl

theorem Fletcher32.transform_backward {flags : FilterFlags} (hflags : flags.contains .reverse = true)
    (words : List UInt32) (nbytes : Nat) (data : Bytes) :
    ∃ count ≤ min nbytes data.length, transform flags words nbytes data = .produced count data := by
  have hn : min nbytes data.length ≤ data.length := Nat.min_le_right _ _
  unfold transform
  dsimp only
  rw [hflags, if_pos rfl]
  split
  · exact ⟨0, Nat.zero_le _, rfl⟩
  split
  · exact ⟨_, Nat.sub_le _ _, rfl⟩
  rw [Bytes.slice?_of_le (Nat.sub_le _ _) hn,
    Bytes.slice?_of_le (Nat.zero_le _) (Nat.le_trans (Nat.sub_le _ _) hn)]
  dsimp only
  split
  · exact ⟨_, Nat.sub_le _ _, rfl⟩
  · exact ⟨0, Nat.zero_le _, rfl⟩

theorem Fletcher32.isBounded : (Codec.ofTransform Fletcher32.transform).IsBounded := by
  refine ⟨fun flags words nbytes data hflags hpos hle => ?_,
    fun flags words nbytes data hflags hle => ?_⟩
  · have hreverse := FilterFlags.contains_reverse_of_isDefinition hflags
    refine ⟨_, _, transform_forward hreverse words nbytes data, ?_, fun h0 => ?_⟩
    · simp
    · cases h0
  · obtain ⟨count, hcount, h⟩ := transform_backward hflags words nbytes data
    exact ⟨count, data, h, Nat.le_trans hcount (Nat.min_le_right _ _)⟩

theorem DeflateFilter.isBounded [Compression] (hheader : Compression.HasHeader) :
    (Codec.ofTransform DeflateFilter.transform).IsBounded := by
  refine ⟨fun flags words nbytes data hflags hpos hle => ?_,
    fun flags words nbytes data hflags hle => ?_⟩
  · have hreverse := FilterFlags.contains_reverse_of_isDefinition hflags
    simp only [Codec.ofTransform, transform, hreverse, Bool.false_eq_true, if_false]
    split
    · next output houtput =>
      refine ⟨_, output, rfl, Nat.le_refl _, fun h0 => ?_⟩
      split at houtput
      · cases houtput
      · next hlevel =>
        exact absurd (List.length_eq_zero_iff.1 h0) (hheader _ _ _ (Nat.le_of_not_lt hlevel) houtput)
    · exact ⟨0, data, rfl, Nat.zero_le _, fun _ => rfl⟩
  · simp only [Codec.ofTransform, transform]
    split
    · next output _ => exact ⟨_, output, rfl, Nat.le_refl _⟩
    · exact ⟨0, data, rfl, Nat.zero_le _⟩

/-! ### Plugins -/

/-- Whatever a plugin's function reports and leaves, its codec is bounded. -/
theorem Plugin.isBounded_codecOf (raw : RawTransform) : (codecOf raw).IsBounded := by
  have hreply : ∀ flags words nbytes data, ∃ count left,
      (codecOf raw).transform flags words nbytes data = .produced count left ∧
        count ≤ left.length ∧ (count = 0 → left = data) := by
    intro flags words nbytes data
    simp only [codecOf, Codec.ofTransform]
    generalize raw flags words nbytes (if data.isEmpty = true then [0] else data) = reply
    split
    · next buffer _ =>
      split
      · next hgood => exact ⟨_, buffer, rfl, hgood.2, fun h0 => absurd h0 hgood.1⟩
      · exact ⟨0, data, rfl, Nat.zero_le _, fun _ => rfl⟩
    · exact ⟨0, data, rfl, Nat.zero_le _, fun _ => rfl⟩
  refine ⟨fun flags words nbytes data _ _ _ => hreply flags words nbytes data,
    fun flags words nbytes data _ _ => ?_⟩
  obtain ⟨count, left, h, hlength, -⟩ := hreply flags words nbytes data
  exact ⟨count, left, h, hlength⟩

/-! ### All of them -/

/-- Codecs of which nothing is assumed but where they come from: the built-in filters, and any plugin
function behind the checks of its answers. -/
inductive Codec.IsGuarded [Compression] : Codec → Prop
  | builtin {c : FilterClass} (h : c ∈ Builtin.classes) : IsGuarded c.codec
  | plugin (raw : Plugin.RawTransform) : IsGuarded (Plugin.codecOf raw)

theorem Codec.isBounded_of_isGuarded [Compression] (hheader : Compression.HasHeader) {c : Codec}
    (h : c.IsGuarded) : c.IsBounded := by
  cases h with
  | plugin raw => exact Plugin.isBounded_codecOf raw
  | @builtin c h =>
    simp only [Builtin.classes, List.mem_cons, List.not_mem_nil, or_false] at h
    rcases h with rfl | rfl | rfl
    · exact DeflateFilter.isBounded hheader
    · exact Shuffle.isBounded
    · exact Fletcher32.isBounded

theorem Plugin.classOf_eq_ok_iff {path : String} {descriptor : Option Descriptor} {c : FilterClass} :
    classOf path descriptor = .ok c ↔ ∃ d raw, descriptor = some d ∧
      d.version = descriptorVersion ∧ d.id.isValid = true ∧ d.transform = some raw ∧
      c = ⟨d.id, d.filterName, d.encoder, d.decoder, codecOf raw, .library path⟩ := by
  constructor
  · intro h
    unfold classOf at h
    split at h
    · cases h
    next d =>
    split at h
    · cases h
    next hversion =>
    split at h
    · cases h
    next hvalid =>
    split at h
    · cases h
    next raw hraw =>
    cases h
    exact ⟨d, raw, rfl, Decidable.not_not.1 hversion, by simpa using hvalid, hraw, rfl⟩
  · rintro ⟨d, raw, rfl, hversion, hvalid, hraw, rfl⟩
    simp [classOf, hversion, hvalid, hraw]

theorem Plugin.isGuarded_of_classOf [Compression] {path : String} {descriptor : Option Descriptor}
    {c : FilterClass} (h : classOf path descriptor = .ok c) : c.codec.IsGuarded := by
  obtain ⟨d, raw, -, -, -, -, rfl⟩ := classOf_eq_ok_iff.1 h
  exact .plugin raw

end FilteredChunks
