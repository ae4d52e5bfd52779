import FilteredChunks.Proofs.Engine.Bounds
import FilteredChunks.Proofs.Engine.Positions
import FilteredChunks.Proofs.Filter.Checksum

/-!
# Reading finds out a byte that was changed

What a pipeline stores is a payload with its checksum, if the last step appends one
(`exists_payload_of_run`).  Reading comes to that step first.  If the checksum does not fit, the read
fails there and nothing is done with the payload (`result_run_of_misfit`); a read that does not verify
checksums takes the checksum off whatever it is (`result_run_unchecked`), which counts as a failure of the step
if no bytes are left.  The main statement, `foundOut_of_run_write`, is about every byte that is stored and
every other byte in its place.
-/

namespace FilteredChunks.Engine

open Fletcher32 (checksum)

/-- The settings of a read that does not verify checksums. -/
def Options.unchecked : Options := { Options.read with checks := false }

/-- What is read of bytes that are not what a pipeline with a checksum at the end stored: the pipeline
fails at its last step, and that step alone, without verifying, takes the four bytes of the checksum off,
unless there are no others. -/
structure FoundOut {τ υ : Type} [CodecSource τ] [CodecSource υ] (pipeline : FilterPipeline)
    (last : FilterStep) (reader : τ) (alone : υ) (mask : FilterMask) (changed : Bytes) : Prop where
  decode : (decode pipeline reader changed mask).restored =
    .error (.failure (.readFailed last.id .returnedFailure))
  unverified : 4 < changed.length → ∀ slots,
    (run ⟨[last], slots⟩ .unchecked alone (.ofBytes changed)).result =
      .ok ⟨changed.length - 4, .empty⟩
  bare : changed.length = 4 → ∀ slots,
    (run ⟨[last], slots⟩ .unchecked alone (.ofBytes changed)).result =
      .error (.failure (.readFailed last.id .returnedFailure))

variable {σ τ : Type} [CodecSource σ] [CodecSource τ] {options : Options}
  {pipeline : FilterPipeline} {front : List FilterStep} {last : FilterStep}

/-! ### Writing -/

theorem exists_payload_of_run (hw : options.direction = .write)
    (hsteps : pipeline.steps = front ++ [last]) (hflags : last.flags.isDefinition = true) {source : σ}
    (hsource : classFor .write source front.length last = some Fletcher32.filterClass)
    {data stored : Bytes} {mask : FilterMask}
    (h : (run pipeline options source (.ofBytes data)).stored = .ok (stored, mask))
    (hmask : mask.isSet front.length = false) :
    last.IsReadable ∧
    ∃ payload, stored = payload ++ Bytes.littleEndian Fletcher32.width (checksum payload) := by
  have hempty : pipeline.isEmpty = false := by simp [FilterPipeline.isEmpty, hsteps]
  rcases hrun : (run pipeline options source (.ofBytes data)).result with fault | outcome
  · rw [Run.stored, hrun] at h
    cases h
  rw [Run.stored, hrun] at h
  obtain ⟨rfl, rfl⟩ := Prod.mk.inj (Except.ok.inj h)
  obtain ⟨-, -, p, hp, hpmask, hbuffer⟩ := exists_runSteps_of_run hempty hrun
  rw [hw, hsteps, ordered_write_append] at hp
  obtain ⟨q, q', hfront, hstep, hrest⟩ := exists_runStep (x := (last, front.length)) hp
  obtain rfl : q' = p := (Prod.mk.inj hrest).2
  -- the last step is not marked, so that its codec was called
  have hq : q.mask.isSet front.length = false := by
    by_contra hset
    rw [Bool.not_eq_false] at hset
    have hmarked := (passes_of_runStep hstep).isSet hset
    rw [← hpmask, hmask] at hmarked
    cases hmarked
  obtain ⟨q₁, hfound⟩ : ∃ q₁, Finds options front.length last q Fletcher32.filterClass q₁ := by
    rw [← classFor_eq_some_iff, hw, source_of_runSteps_write hw hfront]
    exact hsource
  have htransform := Fletcher32.transform_forward
    (FilterFlags.contains_reverse_of_isDefinition hflags) last.words q₁.buffer.nbytes q₁.buffer.data
  rw [← Options.callFlags_write hw last.flags] at htransform
  rw [runStep_of_finds hq hfound] at hstep
  obtain ⟨hread, -⟩ := callCodec_eq_ok hstep
  rw [callCodec_of_produced hread htransform] at hstep
  obtain rfl := (Prod.mk.inj hstep).2
  refine ⟨hread, q₁.buffer.data.take (min q₁.buffer.nbytes q₁.buffer.data.length), ?_⟩
  rw [hbuffer]
  refine List.take_of_length_le ?_
  simp [Progress.leave, Fletcher32.width]

/-! ### Reading -/

theorem Options.contains_skipChecks (hr : options.direction = .read) {flags : FilterFlags}
    (hflags : flags.isDefinition = true) :
    (flags ||| options.callFlags).contains .skipChecks = !options.checks := by
  rw [Options.callFlags, hr]
  cases options.checks with
  | true =>
    exact (FilterFlags.contains_or_of_disjoint flags (by decide)).trans
      (FilterFlags.contains_skipChecks_of_isDefinition hflags)
  | false =>
    have hor : flags ||| (FilterFlags.reverse ||| .skipChecks) =
        (flags ||| .reverse) ||| .skipChecks :=
      congrArg FilterFlags.mk (BitVec.or_assoc ..).symm
    exact hor ▸ FilterFlags.contains_or_right _ _

theorem ordered_read_concat (front : List FilterStep) (last : FilterStep) :
    ordered .read (front ++ [last]) = (last, front.length) :: ordered .read front :=
  ordered_read_append front [last]

/-- A read of which the first step fails, and nobody is asked, fails. -/
theorem result_run_of_failed (hr : options.direction = .read) (hno : options.onFailure = none)
    (hsteps : pipeline.steps = front ++ [last]) {reader : τ} {c : FilterClass}
    (hreader : classFor .read reader front.length last = some c)
    (hmask : options.exclude.isSet front.length = false) (hread : last.IsReadable)
    {bytes left : Bytes} (hbytes : bytes ≠ [])
    (ht : c.codec.transform (last.flags ||| options.callFlags) last.words bytes.length bytes =
      .produced 0 left) :
    (run pipeline options reader (.ofBytes bytes)).result =
      .error (.failure (.readFailed last.id .returnedFailure)) := by
  have hempty : pipeline.isEmpty = false := by simp [FilterPipeline.isEmpty, hsteps]
  let start : Progress τ := ⟨.ofBytes bytes, options.exclude, reader, [], []⟩
  obtain ⟨q, hfound⟩ : ∃ q, Finds options front.length last start c q := by
    rw [← classFor_eq_some_iff, hr]
    exact hreader
  have hfails : c.codec.transform (last.flags ||| options.callFlags) last.words q.buffer.nbytes
      q.buffer.data = .produced 0 left := by
    rw [hfound.buffer_eq]
    exact ht
  have hunasked : ∀ callback, options.onFailure = some callback → callback last.id left = .fail := by
    intro callback hcallback
    rw [hno] at hcallback
    cases hcallback
  obtain ⟨p', hcall, -⟩ : ∃ p', callCodec options front.length last c q =
      (.error (.failure (.readFailed last.id .returnedFailure)), p') ∧
        p'.buffer = ⟨left, q.buffer.nbytes⟩ := exists_callCodec_failed hr hread hfails hunasked
  have hstep := (runStep_of_finds (p := start) hmask hfound).trans hcall
  have hrun : runSteps options (ordered options.direction pipeline.steps) start =
      (.error (.failure (.readFailed last.id .returnedFailure)), p') := by
    rw [hr, hsteps, ordered_read_concat, runSteps, hstep]
  rw [run_eq hempty (by simpa [ChunkBuffer.ofBytes] using hbytes) hbytes hrun]
  rfl

theorem result_run_of_single (hr : options.direction = .read) {slots : Nat} {reader : τ}
    {c : FilterClass} (hreader : classFor .read reader 0 last = some c)
    (hmask : options.exclude.isSet 0 = false) (hread : last.IsReadable) {bytes left : Bytes}
    (hbytes : bytes ≠ []) {n : Nat}
    (ht : c.codec.transform (last.flags ||| options.callFlags) last.words bytes.length bytes =
      .produced (n + 1) left) :
    (run ⟨[last], slots⟩ options reader (.ofBytes bytes)).result =
      .ok ⟨n + 1, options.exclude⟩ := by
  let start : Progress τ := ⟨.ofBytes bytes, options.exclude, reader, [], []⟩
  obtain ⟨q, hfound⟩ : ∃ q, Finds options 0 last start c q := by
    rw [← classFor_eq_some_iff, hr]
    exact hreader
  have hproduced : c.codec.transform (last.flags ||| options.callFlags) last.words q.buffer.nbytes
      q.buffer.data = .produced (n + 1) left := by
    rw [hfound.buffer_eq]
    exact ht
  have hstep := (runStep_of_finds (p := start) hmask hfound).trans
    (callCodec_of_produced hread hproduced)
  have hsingle : ordered options.direction [last] = [(last, 0)] := by
    rw [hr]
    rfl
  have hrun : runSteps options (ordered options.direction [last]) start =
      (.ok (), (q.noteCall c (last.flags ||| options.callFlags) last.words).leave left (n + 1)) := by
    rw [hsingle, runSteps, hstep]
    rfl
  have hempty : (⟨[last], slots⟩ : FilterPipeline).isEmpty = false := rfl
  rw [run_eq hempty (by simpa [ChunkBuffer.ofBytes] using hbytes) hbytes hrun]
  exact congrArg (fun mask => Except.ok (Outcome.mk (n + 1) mask)) hfound.mask_eq

/-- **A read fails at a checksum that does not fit.** -/
theorem result_run_of_misfit (hr : options.direction = .read) (hchecks : options.checks = true)
    (hno : options.onFailure = none) (hsteps : pipeline.steps = front ++ [last])
    (hflags : last.flags.isDefinition = true) {reader : τ}
    (hreader : classFor .read reader front.length last = some Fletcher32.filterClass)
    (hmask : options.exclude.isSet front.length = false) (hread : last.IsReadable)
    {payload stored : Bytes} (hlength : stored.length = Fletcher32.width)
    (hmisfit : Bytes.fromLittleEndian stored ≠ checksum payload) :
    (run pipeline options reader (.ofBytes (payload ++ stored))).result =
      .error (.failure (.readFailed last.id .returnedFailure)) := by
  have hbytes : payload ++ stored ≠ [] := by
    intro hnil
    rw [(List.append_eq_nil_iff.1 hnil).2] at hlength
    cases hlength
  have hverifies : (last.flags ||| options.callFlags).contains .skipChecks = false := by
    rw [Options.contains_skipChecks hr hflags, hchecks]
    rfl
  have htransform := Fletcher32.transform_verifying (Options.contains_reverse hr last.flags)
    hverifies last.words payload hlength
  rw [if_neg hmisfit] at htransform
  exact result_run_of_failed hr hno hsteps hreader hmask hread hbytes htransform

/-- A step that takes a checksum off without verifying it leaves the other bytes; if there are none, it
has failed. -/
theorem result_run_unchecked (hflags : last.flags.isDefinition = true) (hread : last.IsReadable)
    {alone : τ} (halone : classFor .read alone 0 last = some Fletcher32.filterClass) (slots : Nat)
    (bytes : Bytes) :
    (4 < bytes.length → (run ⟨[last], slots⟩ .unchecked alone (.ofBytes bytes)).result =
      .ok ⟨bytes.length - 4, .empty⟩) ∧
    (bytes.length = 4 → (run ⟨[last], slots⟩ .unchecked alone (.ofBytes bytes)).result =
      .error (.failure (.readFailed last.id .returnedFailure))) := by
  have hr : Options.unchecked.direction = .read := rfl
  have htransform (hlength : 4 ≤ bytes.length) :
      Fletcher32.filterClass.codec.transform (last.flags ||| Options.unchecked.callFlags) last.words
        bytes.length bytes = .produced (bytes.length - 4) bytes :=
    Fletcher32.transform_skipping (Options.contains_reverse hr last.flags)
      (Options.contains_skipChecks hr hflags) last.words hlength
  have hbytes (hlength : 4 ≤ bytes.length) : bytes ≠ [] := by
    rintro rfl
    cases hlength
  constructor
  · intro hlength
    obtain ⟨n, hn⟩ := Nat.exists_eq_add_one_of_ne_zero (Nat.sub_ne_zero_of_lt hlength)
    have ht := htransform (Nat.le_of_lt hlength)
    rw [hn] at ht ⊢
    exact result_run_of_single hr halone (FilterMask.isSet_empty 0) hread
      (hbytes (Nat.le_of_lt hlength)) ht
  · intro hlength
    have hle : 4 ≤ bytes.length := Nat.le_of_eq hlength.symm
    have ht := htransform hle
    rw [Nat.sub_eq_zero_of_le (Nat.le_of_eq hlength)] at ht
    have hsteps : (⟨[last], slots⟩ : FilterPipeline).steps = [] ++ [last] := rfl
    exact result_run_of_failed hr rfl hsteps halone (FilterMask.isSet_empty 0) hread (hbytes hle) ht

/-! ### A byte that was changed -/

/-- **Every change of a byte is found out.**  A pipeline of which the last step appends a checksum has
stored bytes, and that step is not marked.  They are a payload with its checksum.  Whatever other byte
is put at whatever place, reading with the mask fails at the last step; and that step alone, without
verifying, takes four bytes off, or fails if there are no others.  Of the changes of a word, the exchange
of 0 and 65535 is the only one that keeps the checksum. -/
theorem foundOut_of_run_write {υ : Type} [CodecSource υ] (hw : options.direction = .write)
    (hsteps : pipeline.steps = front ++ [last]) (hflags : last.flags.isDefinition = true) {source : σ}
    (hsource : classFor .write source front.length last = some Fletcher32.filterClass)
    {data stored : Bytes} {mask : FilterMask}
    (h : (run pipeline options source (.ofBytes data)).stored = .ok (stored, mask))
    (hmask : mask.isSet front.length = false) {reader : τ}
    (hreader : classFor .read reader front.length last = some Fletcher32.filterClass) {alone : υ}
    (halone : classFor .read alone 0 last = some Fletcher32.filterClass) :
    ∃ payload, stored = payload ++ Bytes.littleEndian Fletcher32.width (checksum payload) ∧
      (∀ i byte, i < stored.length → stored[i]? ≠ some byte →
        FoundOut pipeline last reader alone mask (stored.set i byte)) ∧
      ∀ before word word' after, payload = before ++ word ++ after → before.length % 2 = 0 →
        Fletcher32.IsWord word after → word'.length = word.length →
        (checksum (before ++ word' ++ after) = checksum payload ↔
          word' = word ∨ word = [0, 0] ∧ word' = [255, 255] ∨ word = [255, 255] ∧ word' = [0, 0]) := by
  obtain ⟨hread, payload, rfl⟩ := exists_payload_of_run hw hsteps hflags hsource h hmask
  refine ⟨payload, rfl, fun i byte hi hbyte => ?_, ?_⟩
  · obtain ⟨payload', stored, hset, -, hwidth, hmisfit⟩ :=
      Fletcher32.exists_mismatch_of_set payload hi hbyte
    rw [hset]
    have halone (slots : Nat) := result_run_unchecked hflags hread halone slots (payload' ++ stored)
    refine ⟨?_, fun hlength slots => (halone slots).1 hlength,
      fun hlength slots => (halone slots).2 hlength⟩
    rw [Run.restored, decode,
      result_run_of_misfit rfl rfl rfl hsteps hflags hreader hmask hread hwidth hmisfit]
    rfl
  · rintro before word word' after rfl heven hword hlength
    exact Fletcher32.checksum_eq_iff_of_word heven hword hlength

/-- Four bytes are shuffled and stored with their checksum, and the last byte of that is changed. -/
theorem foundOut_of_run_write_shuffled :
    let steps : List FilterStep := [.ofWords .shuffle .optional [2], .ofWords .fletcher32 .mandatory []]
    let last : FilterStep := .ofWords .fletcher32 .mandatory []
    let source : FilterRegistry := .builtins
    Options.write.direction = .write ∧ steps = [.ofWords .shuffle .optional [2]] ++ [last] ∧
      last.flags.isDefinition = true ∧
      classFor .write source 1 last = some Fletcher32.filterClass ∧
      (run ⟨steps, 32⟩ .write source (.ofBytes [1, 2, 3, 4])).stored =
        .ok ([1, 3, 2, 4, 7, 3, 10, 4], .empty) ∧
      FilterMask.empty.isSet 1 = false ∧
      classFor .read source 1 last = some Fletcher32.filterClass ∧
      classFor .read source 0 last = some Fletcher32.filterClass ∧
      FoundOut ⟨steps, 32⟩ last source source .empty [1, 3, 2, 4, 7, 3, 10, 5] := by
  intro steps last source
  have hw : classFor .write source 1 last = some Fletcher32.filterClass := rfl
  have hr : classFor .read source 1 last = some Fletcher32.filterClass := rfl
  have halone : classFor .read source 0 last = some Fletcher32.filterClass := rfl
  have hstored : (run ⟨steps, 32⟩ .write source (.ofBytes [1, 2, 3, 4])).stored =
      .ok ([1, 3, 2, 4, 7, 3, 10, 4], .empty) := by decide
  have hsteps : (⟨steps, 32⟩ : FilterPipeline).steps =
      [.ofWords .shuffle .optional [2]] ++ [last] := rfl
  obtain ⟨_, -, hfound, -⟩ :=
    foundOut_of_run_write rfl hsteps (by decide) hw hstored rfl hr halone
  exact ⟨rfl, rfl, by decide, hw, hstored, rfl, hr, halone, hfound 7 5 (by decide) (by decide)⟩

/-- A registry with the built-in filters and one that fails and throws the buffer away. -/
def emptyingRegistry : FilterRegistry :=
  FilterRegistry.builtins.insert
    (.ofCodec 300 "clear" (.ofSample .clearing .always .keep) (.application 0))

/-- A filter that may fail has thrown the data away, and the checksum of no bytes is all that is stored.
After a change of one of its bytes the last step fails, without verifying too: it leaves nothing. -/
theorem not_run_unchecked_emptied :
    let last : FilterStep := .ofWords .fletcher32 .mandatory []
    let pipeline : FilterPipeline := ⟨[.ofWords 300 .optional [], last], 32⟩
    let stored : Bytes := [0, 0, 0, 0]
    classFor .write emptyingRegistry 1 last = some Fletcher32.filterClass ∧
      (run pipeline .write emptyingRegistry (.ofBytes [1, 2])).stored = .ok (stored, ⟨1⟩) ∧
      (⟨1⟩ : FilterMask).isSet 1 = false ∧
      classFor .read emptyingRegistry 0 last = some Fletcher32.filterClass ∧
      stored[0]? ≠ some 1 ∧
      ∀ outcome, (run ⟨[last], 32⟩ .unchecked emptyingRegistry (.ofBytes (stored.set 0 1))).result ≠
        .ok outcome := by
  intro last pipeline stored
  have hfailed : (run ⟨[last], 32⟩ .unchecked emptyingRegistry (.ofBytes (stored.set 0 1))).result =
      .error (.failure (.readFailed .fletcher32 .returnedFailure)) := by decide
  refine ⟨rfl, by decide, rfl, rfl, by decide, fun outcome hok => ?_⟩
  cases hfailed.symm.trans hok

end FilteredChunks.Engine
