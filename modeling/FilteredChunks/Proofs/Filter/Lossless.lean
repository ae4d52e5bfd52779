import FilteredChunks.Proofs.Engine.RoundTrip
import FilteredChunks.Proofs.Filter.Bounds

/-!
# The built-in filters lose nothing

Turning a table twice gives it back (`transpose?_transpose?`), a checksum fits into its four bytes, and
compressing is undone by expanding, which is what is assumed of it (`Compression.IsLossless`).  So the
built-in codecs are lawful (`isLawful_of_mem`), and they accept whatever they are given, with a bound
on what they make of it (`Codec.Accepts`).
-/

namespace FilteredChunks

/-- What `n` bytes grow to at most in one step. -/
def growth (n : Nat) : Nat := n + n / 1024 + 64

/-- What is relied on of compressing at the levels that there are. -/
structure Compression.IsLossless [Compression] : Prop where
  succeeds : ∀ level bytes, level ≤ DeflateFilter.maxLevel → ∃ output, compress level bytes = some output
  /-- Expanding undoes compressing. -/
  expands : ∀ level bytes output, level ≤ DeflateFilter.maxLevel →
    compress level bytes = some output → expand output = some bytes
  header : HasHeader
  /-- Bytes that cannot be compressed do not grow by much. -/
  length_le : ∀ level bytes output, level ≤ DeflateFilter.maxLevel →
    compress level bytes = some output → output.length ≤ growth bytes.length

theorem Codec.isLawful_of_isBounded {c : Codec} (hbounded : c.IsBounded)
    (undone : ∀ (flags : FilterFlags) (words : List UInt32) (nbytes count : Nat)
      (data left given : Bytes), flags.isDefinition = true → 0 < nbytes → nbytes ≤ data.length →
      0 < count → c.transform flags words nbytes data = .produced count left →
      left.take count <+: given →
      ∃ restored, c.transform (flags ||| .reverse) words count given = .produced nbytes restored ∧
        data.take nbytes <+: restored) : c.IsLawful := by
  refine ⟨?_, ?_, undone⟩
  · intro flags words nbytes data left hflags hpos hle h
    obtain ⟨count, left', h', -, hkept⟩ := hbounded.forward flags words nbytes data hflags hpos hle
    rw [h'] at h
    cases h
    exact hkept rfl
  · intro flags words nbytes count data left hflags hpos hle _ h
    obtain ⟨count', left', h', hfits, -⟩ := hbounded.forward flags words nbytes data hflags hpos hle
    rw [h'] at h
    cases h
    exact hfits

/-! ### Shuffling -/

/-- **Turning a table twice gives it back**, whatever comes after the turned table. -/
theorem Shuffle.transpose?_transpose? {rows cols : Nat} {table turned : Bytes}
    (h : rows * cols ≤ table.length) (hturned : transpose? rows cols table = some turned)
    (more : Bytes) : transpose? cols rows (turned ++ more) = some (table.take (rows * cols)) := by
  obtain ⟨turned', hturned', hlength, hcells⟩ := transpose?_of_le h
  obtain rfl : turned' = turned := Option.some.inj (hturned'.symm.trans hturned)
  have hmore : cols * rows ≤ (turned' ++ more).length := by
    rw [List.length_append, hlength, Nat.mul_comm]
    exact Nat.le_add_right _ _
  obtain ⟨back, hback, hlength', hcells'⟩ := transpose?_of_le hmore
  rw [hback]
  refine congrArg some (List.ext_getElem? fun p => ?_)
  by_cases hp : p < rows * cols
  · -- position `p` is that of column `p % cols` in row `p / cols`
    have hcols : 0 < cols := by
      rcases Nat.eq_zero_or_pos cols with rfl | hpos
      · simp at hp
      · exact hpos
    have hrow : p / cols < rows := Nat.div_lt_of_lt_mul (Nat.mul_comm rows cols ▸ hp)
    have hcol : p % cols < cols := Nat.mod_lt p hcols
    have hp' : p / cols * cols + p % cols = p := by
      rw [Nat.mul_comm]
      exact Nat.div_add_mod p cols
    have hin : p % cols * rows + p / cols < turned'.length := by
      rw [hlength, Nat.mul_comm rows cols]
      exact cell_lt hcol hrow
    have hthere := hcells' _ hcol _ hrow
    have hhere := hcells _ hrow _ hcol
    rw [hp'] at hthere hhere
    rw [hthere, List.getElem?_append_left hin, hhere, List.getElem?_take_of_lt hp]
  · rw [List.getElem?_eq_none (by rw [hlength', Nat.mul_comm]; omega),
      List.getElem?_eq_none (by rw [List.length_take]; omega)]

/-- **What was shuffled is put back**, whatever comes after it. -/
theorem Shuffle.transform_transform {forward backward : FilterFlags}
    (hforward : forward.contains .reverse = false) (hbackward : backward.contains .reverse = true)
    (words words' : List UInt32) {word : UInt32} {nbytes n : Nat} {data left given : Bytes}
    (hn : min nbytes data.length = n)
    (h : transform forward (word :: words) nbytes data = .produced n left)
    (hgiven : left.take n <+: given) :
    ∃ restored, transform backward (word :: words') n given = .produced n restored ∧
      data.take n <+: restored := by
  have hinput : (data.take n).length = n := by
    rw [List.length_take]
    omega
  by_cases hfew : word.toNat ≤ 1 ∨ n / word.toNat ≤ 1
  · -- nothing was done, and nothing is done
    rw [transform_of_le forward words hn hfew] at h
    cases h
    have hmin : min n given.length = n := Nat.min_eq_left (hinput ▸ hgiven.length_le)
    exact ⟨given, transform_of_le backward words' hmin hfew, hgiven⟩
  · obtain ⟨turned, hturned, hlength, htransform⟩ := transform_of_lt forward words hn hfew
    rw [htransform] at h
    cases h
    have hbody : n / word.toNat * word.toNat ≤ n := Nat.div_mul_le_self _ _
    have hleft : (turned ++ (data.take n).drop (n / word.toNat * word.toNat)).length = n := by
      rw [List.length_append, hlength, List.length_drop, hinput]
      omega
    rw [List.take_of_length_le (Nat.le_of_eq hleft)] at hgiven
    have hmin : min n given.length = n := Nat.min_eq_left (hleft ▸ hgiven.length_le)
    have htake : given.take n = turned ++ (data.take n).drop (n / word.toNat * word.toNat) := by
      rw [List.prefix_iff_eq_take.1 hgiven, hleft]
    obtain ⟨back, hback, -, htransform'⟩ := transform_of_lt backward words' hmin hfew
    rw [hbackward, if_pos rfl, htake] at hback
    rw [hforward, if_neg Bool.false_ne_true] at hturned
    rw [transpose?_transpose? (by rw [hinput]; exact hbody) hturned] at hback
    cases hback
    rw [htake, List.drop_left' hlength, List.take_append_drop] at htransform'
    exact ⟨_, htransform', List.prefix_rfl⟩

theorem Shuffle.isLawful : Shuffle.codec.IsLawful := by
  refine Codec.isLawful_of_isBounded Shuffle.isBounded ?_
  intro flags words nbytes count data left given hflags hpos hle hcount h hgiven
  cases words with
  | nil =>
    cases h
    cases hcount
  | cons word words =>
    have hmin : min nbytes data.length = nbytes := Nat.min_eq_left hle
    obtain ⟨left', h', -⟩ := transform_cons flags word words nbytes data
    rw [show codec.transform = transform from rfl, h', hmin] at h
    cases h
    rw [hmin] at h'
    exact transform_transform (FilterFlags.contains_reverse_of_isDefinition hflags)
      (FilterFlags.contains_reverse_or flags) words words hmin h' hgiven

/-! ### Checksums -/

theorem Fletcher32.checksum_lt (data : Bytes) : checksum data < Bytes.span width := by
  have hlt (n : Nat) : n % 65535 < 65535 := Nat.mod_lt n (by decide)
  have hspan : Bytes.span width = 65536 * 65536 := by decide
  simp only [checksum, Sums.reduce, hspan]
  have := hlt ((words data).foldl Sums.add .zero).first
  have := hlt ((words data).foldl Sums.add .zero).second
  omega

/-- A reverse call on bytes with their checksum takes it off, whatever comes after it and whether it
is verified or not. -/
theorem Fletcher32.transform_of_prefix {flags : FilterFlags}
    (hflags : flags.contains .reverse = true) (ws : List UInt32) {payload given : Bytes}
    (h : payload ++ Bytes.littleEndian width (checksum payload) <+: given) :
    transform flags ws (payload.length + width) given = .produced payload.length given := by
  have hlength : (payload ++ Bytes.littleEndian width (checksum payload)).length =
      payload.length + width := by simp
  have hle : payload.length + width ≤ given.length := hlength ▸ h.length_le
  have htake : given.take (payload.length + width) =
      payload ++ Bytes.littleEndian width (checksum payload) := by
    rw [List.prefix_iff_eq_take.1 h, hlength]
  have hpayload : given.take payload.length = payload :=
    (List.prefix_iff_eq_take.1 ((List.prefix_append payload _).trans h)).symm
  unfold transform
  dsimp only
  rw [hflags, if_pos rfl, Nat.min_eq_left hle, if_neg (by omega), Nat.add_sub_cancel,
    Bytes.slice?_of_le (Nat.le_add_right _ _) hle, Bytes.slice?_of_le (Nat.zero_le _) (by omega),
    htake, List.drop_left' rfl, hpayload]
  dsimp only
  rw [Bytes.fromLittleEndian_littleEndian, Nat.mod_eq_of_lt (checksum_lt payload), List.drop_zero,
    if_pos rfl]
  split <;> rfl

theorem Fletcher32.isLawful : (Codec.ofTransform Fletcher32.transform).IsLawful := by
  refine Codec.isLawful_of_isBounded Fletcher32.isBounded ?_
  intro flags ws nbytes count data left given hflags hpos hle hcount h hgiven
  have hmin : min nbytes data.length = nbytes := Nat.min_eq_left hle
  have hlength : (data.take nbytes).length = nbytes := by rw [List.length_take, hmin]
  have hforward := transform_forward (FilterFlags.contains_reverse_of_isDefinition hflags) ws nbytes
    data
  rw [hmin] at hforward
  rw [show (Codec.ofTransform transform).transform = transform from rfl, hforward] at h
  cases h
  rw [List.take_of_length_le (by simp [hle])] at hgiven
  have hback := transform_of_prefix (FilterFlags.contains_reverse_or flags) ws hgiven
  rw [hlength] at hback
  exact ⟨given, hback, (List.prefix_append _ _).trans hgiven⟩

/-! ### Compressing -/

/-- The level that the words of a step ask for. -/
def DeflateFilter.levelOf (words : List UInt32) : Nat := (words.head?.getD defaultLevel).toNat

theorem DeflateFilter.transform_forward [Compression] {flags : FilterFlags}
    (hflags : flags.contains .reverse = false) (words : List UInt32) (nbytes : Nat) (data : Bytes) :
    transform flags words nbytes data =
      match (if maxLevel < levelOf words then none
        else Compression.compress (levelOf words) (data.take nbytes)) with
      | some output => .produced output.length output
      | none => .produced 0 data := by
  have hcompress : (if flags.contains .reverse = true then Compression.expand (data.take nbytes)
      else if maxLevel < levelOf words then none
      else Compression.compress (levelOf words) (data.take nbytes)) =
        if maxLevel < levelOf words then none
        else Compression.compress (levelOf words) (data.take nbytes) := by
    rw [hflags, if_neg Bool.false_ne_true]
  rw [← hcompress]
  rfl

theorem DeflateFilter.isLawful [Compression] (hlossless : Compression.IsLossless) :
    (Codec.ofTransform DeflateFilter.transform).IsLawful := by
  refine Codec.isLawful_of_isBounded (DeflateFilter.isBounded hlossless.header) ?_
  intro flags words nbytes count data left given hflags hpos hle hcount h hgiven
  rw [show (Codec.ofTransform transform).transform = transform from rfl] at h ⊢
  rw [transform_forward (FilterFlags.contains_reverse_of_isDefinition hflags)] at h
  split at h
  · next output houtput =>
    cases h
    split at houtput
    · cases houtput
    next hlevel =>
    have hexpand := hlossless.expands _ _ _ (Nat.le_of_not_lt hlevel) houtput
    rw [List.take_length] at hgiven
    refine ⟨data.take nbytes, ?_, List.prefix_rfl⟩
    unfold transform
    dsimp only
    rw [FilterFlags.contains_reverse_or, if_pos rfl, ← List.prefix_iff_eq_take.1 hgiven, hexpand]
    dsimp only
    rw [List.length_take, Nat.min_eq_left hle]
  · cases h
    cases hcount

/-! ### All of them -/

/-- **The built-in codecs are lawful**, if compressing is. -/
theorem Builtin.isLawful_of_mem [Compression] (hlossless : Compression.IsLossless) {c : FilterClass}
    (h : c ∈ classes) : c.codec.IsLawful := by
  simp only [classes, List.mem_cons, List.not_mem_nil, or_false] at h
  rcases h with rfl | rfl | rfl
  · exact DeflateFilter.isLawful hlossless
  · exact Shuffle.isLawful
  · exact Fletcher32.isLawful

/-- With these words, a codec takes any bytes, and leaves not many more. -/
def Codec.Accepts (c : Codec) (words : List UInt32) : Prop :=
  ∀ (flags : FilterFlags) (nbytes : Nat) (data : Bytes), flags.isDefinition = true → 0 < nbytes →
    nbytes ≤ data.length → ∃ n left, c.transform flags words nbytes data = .produced (n + 1) left ∧
      n + 1 ≤ growth nbytes

theorem le_growth (n : Nat) : n ≤ growth n := by
  unfold growth
  omega

theorem Shuffle.accepts (word : UInt32) (words : List UInt32) :
    Shuffle.codec.Accepts (word :: words) := by
  intro flags nbytes data hflags hpos hle
  obtain ⟨left, h, -⟩ := transform_cons flags word words nbytes data
  obtain ⟨n, rfl⟩ := Nat.exists_eq_add_one_of_ne_zero (Nat.ne_of_gt hpos)
  rw [Nat.min_eq_left hle] at h
  exact ⟨n, left, h, le_growth _⟩

theorem Fletcher32.accepts (ws : List UInt32) : (Codec.ofTransform Fletcher32.transform).Accepts ws := by
  intro flags nbytes data hflags hpos hle
  have h := transform_forward (FilterFlags.contains_reverse_of_isDefinition hflags) ws nbytes data
  rw [Nat.min_eq_left hle] at h
  refine ⟨nbytes + 3, _, h, ?_⟩
  unfold growth
  omega

theorem DeflateFilter.accepts [Compression] (hlossless : Compression.IsLossless)
    {words : List UInt32} (hlevel : levelOf words ≤ maxLevel) :
    (Codec.ofTransform DeflateFilter.transform).Accepts words := by
  intro flags nbytes data hflags hpos hle
  obtain ⟨output, houtput⟩ := hlossless.succeeds _ (data.take nbytes) hlevel
  have hne := hlossless.header _ _ _ hlevel houtput
  have hlength := hlossless.length_le _ _ _ hlevel houtput
  rw [List.length_take, Nat.min_eq_left hle] at hlength
  obtain ⟨n, hn⟩ := Nat.exists_eq_add_one_of_ne_zero (Nat.ne_of_gt (List.length_pos_iff.2 hne))
  have h := transform_forward (FilterFlags.contains_reverse_of_isDefinition hflags) words nbytes data
  rw [if_neg (Nat.not_lt.2 hlevel), houtput] at h
  dsimp only at h
  rw [hn] at h
  exact ⟨n, output, h, hn ▸ hlength⟩

end FilteredChunks
