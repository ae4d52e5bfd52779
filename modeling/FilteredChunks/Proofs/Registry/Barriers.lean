import FilteredChunks.Proofs.Registry.Unregistering
import FilteredChunks.Sample.Codec

/-!
# Waiting for groups of processes

When a filter goes, the writable files are flushed, and the group of processes of the first one that was
opened collectively is waited for before that (`events_flushFiles_of_waits`).  No other group is, so that
there is at most one barrier.  There is none if that first file has a null group, whatever groups later
files have (`Overlooks`); otherwise there is one as soon as some file has a group (`SynchronisesOnce`).
-/

namespace FilteredChunks

namespace OpenObjects

/-- A writable file that was opened by a group of processes. -/
def IsShared (file : OpenFile) : Prop := file.intent = .ok .readWrite ∧ file.collective = true

/-- The group of a file is known and not null. -/
def HasGroup (file : OpenFile) : Prop := ∃ communicator, file.communicator = .ok (some communicator)

/-- Everything that a file may be asked for goes well. -/
structure Obliging (file : OpenFile) : Prop where
  intent : ∃ intent, file.intent = .ok intent
  communicator : ∃ group, file.communicator = .ok group ∧
    ∀ communicator, group = some communicator → communicator.barrier = .ok ()
  flush : file.flush = .ok ()

/-- One barrier, if the check is on and a shared file has a group, and it is waited for before such files
are flushed; otherwise none. -/
structure SynchronisesOnce (check : Bool) (files : List OpenFile) (events : List Event) : Prop where
  once : check = true → (∃ file ∈ files, IsShared file ∧ HasGroup file) →
    ∃ before number after, events = before ++ .barrier number :: after ∧
      (∀ n, .barrier n ∉ before ++ after) ∧
      ∀ n file, files[n]? = some file → file.collective = true → HasGroup file →
        .flush n ∉ before ∧ (file.intent = .ok .readWrite → .flush n ∈ after)
  never : (check = true → ∀ file ∈ files, IsShared file → ¬ HasGroup file) →
    ∀ n, .barrier n ∉ events

/-- The file whose group is to be waited for has a null group, and a later shared file has a group. -/
def Overlooks (check : Bool) (files : List OpenFile) : Prop :=
  ∃ before file after, files = before ++ file :: after ∧ file.intent = .ok .readWrite ∧
    Waits check before file ∧ file.communicator = .ok none ∧
    ∃ later ∈ after, IsShared later ∧ HasGroup later

/-- What a file is asked for if its group is not waited for. -/
def askedOf (file : OpenFile) (number : Nat) : List Event :=
  match file.intent with
  | .ok .readWrite => [.intent number, .flush number]
  | _ => [.intent number]

/-- What files are asked for if no group is waited for. -/
def askedOfAll (files : List (OpenFile × Nat)) : List Event :=
  files.flatMap fun x => askedOf x.1 x.2

/-- The barrier that is issued for a group, unless it is null. -/
def barrierFor (file : OpenFile) (number : Nat) : List Event :=
  match file.communicator with
  | .ok (some _) => [.barrier number]
  | _ => []

variable {check issued : Bool} {file : OpenFile} {files before after : List OpenFile}
  {numbered rest : List (OpenFile × Nat)} {n : Nat}

/-! ### What files are asked for -/

theorem askedOf_eq (hfile : file.intent = .ok .readWrite) (n : Nat) :
    askedOf file n = [.intent n, .flush n] := by
  rw [askedOf, hfile]

theorem barrier_notMem_askedOfAll (numbered : List (OpenFile × Nat)) (n : Nat) :
    .barrier n ∉ askedOfAll numbered := by
  intro h
  obtain ⟨x, -, hx⟩ := List.mem_flatMap.1 h
  unfold askedOf at hx
  split at hx
  · simp at hx
  · simp at hx

theorem flush_mem_askedOfAll : .flush n ∈ askedOfAll numbered ↔
    ∃ file, (file, n) ∈ numbered ∧ file.intent = .ok .readWrite := by
  constructor
  · intro h
    obtain ⟨⟨file, number⟩, hmem, hx⟩ := List.mem_flatMap.1 h
    unfold askedOf at hx
    split at hx
    · next hfile =>
      obtain rfl : n = number := by simpa using hx
      exact ⟨file, hmem, hfile⟩
    · simp at hx
  · rintro ⟨file, hmem, hfile⟩
    refine List.mem_flatMap.2 ⟨_, hmem, ?_⟩
    rw [askedOf_eq hfile]
    simp

theorem Asked.after_after {α : Type} (first second : List Event) (asked : Asked α) :
    Asked.after first (Asked.after second asked) = Asked.after (first ++ second) asked := by
  rw [Asked.after, Asked.after, Asked.after, List.append_assoc]

/-! ### The course of flushing -/

/-- Once a group was waited for, or if none is to be, there is no barrier, whatever files say. -/
theorem barrier_notMem_flushFiles (hdone : (check && !issued) = false) (n : Nat) :
    .barrier n ∉ (flushFiles check issued numbered).2 := by
  induction numbered with
  | nil => exact List.not_mem_nil
  | cons x rest ih =>
    obtain ⟨file, number⟩ := x
    have hneeded : (file.collective && check && !issued) = false := by
      rw [Bool.and_assoc, hdone, Bool.and_false]
    rw [flushFiles]
    split
    · simp
    · simpa [Asked.after] using ih
    · dsimp only
      rw [hneeded, if_neg Bool.false_ne_true, Bool.or_false]
      dsimp only
      split
      · simp
      · simpa [Asked.after] using ih

theorem flushFiles_cons_of_obliging (hfile : Obliging file)
    (hdone : IsShared file → (check && !issued) = false) (n : Nat) (rest : List (OpenFile × Nat)) :
    flushFiles check issued ((file, n) :: rest) =
      (flushFiles check issued rest).after (askedOf file n) := by
  obtain ⟨⟨intent, hintent⟩, -, hflush⟩ := hfile
  rw [flushFiles, askedOf, hintent]
  cases intent with
  | readOnly => rfl
  | readWrite =>
    have hneeded : (file.collective && check && !issued) = false := by
      rw [Bool.and_assoc, Bool.and_eq_false_imp]
      exact fun hcollective => hdone ⟨hintent, hcollective⟩
    dsimp only
    rw [hneeded, if_neg Bool.false_ne_true, Bool.or_false]
    dsimp only
    rw [hflush]
    rfl

theorem flushFiles_append (hall : ∀ x ∈ numbered, Obliging x.1)
    (hdone : ∀ x ∈ numbered, IsShared x.1 → (check && !issued) = false)
    (rest : List (OpenFile × Nat)) :
    flushFiles check issued (numbered ++ rest) =
      (flushFiles check issued rest).after (askedOfAll numbered) := by
  induction numbered with
  | nil => rfl
  | cons x numbered ih =>
    rw [List.cons_append, flushFiles_cons_of_obliging (hall x List.mem_cons_self)
      (hdone x List.mem_cons_self), ih (fun y hy => hall y (List.mem_cons_of_mem _ hy))
      (fun y hy => hdone y (List.mem_cons_of_mem _ hy)), Asked.after_after, askedOfAll, askedOfAll,
      List.flatMap_cons]

theorem flushFiles_of_obliging (check issued : Bool) (hall : ∀ x ∈ numbered, Obliging x.1)
    (hdone : ∀ x ∈ numbered, IsShared x.1 → (check && !issued) = false) :
    flushFiles check issued numbered = (.ok (), askedOfAll numbered) := by
  have hcourse := flushFiles_append hall hdone []
  rw [List.append_nil] at hcourse
  rw [hcourse, flushFiles, Asked.after, List.append_nil]

theorem flushFiles_cons_of_shared (hfile : Obliging file) (hshared : IsShared file) (n : Nat)
    (rest : List (OpenFile × Nat)) :
    flushFiles true false ((file, n) :: rest) = (flushFiles true true rest).after
      (.intent n :: .communicator n :: barrierFor file n ++ [.flush n]) := by
  obtain ⟨hintent, hcollective⟩ := hshared
  obtain ⟨-, ⟨group, hgroup, hbarrier⟩, hflush⟩ := hfile
  have hneeded : (file.collective && true && !false) = true := by rw [hcollective]; rfl
  rw [flushFiles, hintent]
  dsimp only
  rw [hneeded, if_pos rfl, synchronise, barrierFor, hgroup]
  cases group with
  | none =>
    dsimp only
    rw [hflush]
    rfl
  | some communicator =>
    dsimp only
    rw [hbarrier communicator rfl, hflush]
    rfl

theorem events_flushFiles_of_none (hall : ∀ file ∈ files, Obliging file)
    (hnone : ∀ file ∈ files, IsShared file → check = false) :
    (flushFiles check false files.zipIdx).2 = askedOfAll files.zipIdx := by
  rw [flushFiles_of_obliging]
  · exact fun x hx => hall x.1 (List.fst_mem_of_mem_zipIdx hx)
  · intro x hx hshared
    rw [hnone x.1 (List.fst_mem_of_mem_zipIdx hx) hshared]
    rfl

/-- **The first shared file is flushed after its group was waited for**, and the files around it are
asked as if there were no groups. -/
theorem events_flushFiles_of_waits (hall : ∀ other ∈ before ++ file :: after, Obliging other)
    (hfile : file.intent = .ok .readWrite) (hwaits : Waits check before file) :
    (flushFiles check false (before ++ file :: after).zipIdx).2 = askedOfAll before.zipIdx ++
      ((.intent before.length :: .communicator before.length :: barrierFor file before.length ++
        [.flush before.length]) ++ askedOfAll (after.zipIdx (before.length + 1))) := by
  obtain ⟨rfl, hcollective, hfirst⟩ := hwaits
  have hunshared : ∀ x ∈ before.zipIdx, IsShared x.1 → (true && !false) = false := by
    rintro x hx ⟨hwritable, hshared⟩
    rw [hfirst x.1 (List.fst_mem_of_mem_zipIdx hx) hwritable] at hshared
    cases hshared
  have hbefore : ∀ x ∈ before.zipIdx, Obliging x.1 := fun x hx =>
    hall x.1 (List.mem_append_left _ (List.fst_mem_of_mem_zipIdx hx))
  have hafter : ∀ x ∈ after.zipIdx (before.length + 1), Obliging x.1 := fun x hx =>
    hall x.1 (List.mem_append_right _ (List.mem_cons_of_mem _ (List.fst_mem_of_mem_zipIdx hx)))
  rw [List.zipIdx_append, List.zipIdx_cons, Nat.zero_add, flushFiles_append hbefore hunshared,
    flushFiles_cons_of_shared (hall file (by simp)) ⟨hfile, hcollective⟩,
    flushFiles_of_obliging true true hafter fun _ _ _ => rfl]
  rfl

/-! ### Barriers -/

theorem exists_first_shared (check : Bool) (files : List OpenFile) :
    (∀ file ∈ files, IsShared file → check = false) ∨
      ∃ before file after, files = before ++ file :: after ∧ file.intent = .ok .readWrite ∧
        Waits check before file := by
  classical
  cases check with
  | false => exact .inl fun _ _ _ => rfl
  | true =>
    cases hfind : files.find? fun file => decide (IsShared file) with
    | none =>
      refine .inl fun file hmem hshared => ?_
      simpa [hshared] using List.find?_eq_none.1 hfind file hmem
    | some file =>
      obtain ⟨hshared, before, after, hfiles, hbefore⟩ := List.find?_eq_some_iff_append.1 hfind
      obtain ⟨hwritable, hcollective⟩ := of_decide_eq_true hshared
      refine .inr ⟨before, file, after, hfiles, hwritable, rfl, hcollective, fun earlier hmem h => ?_⟩
      by_contra hne
      have := hbefore earlier hmem
      simp [IsShared, h, hne] at this

theorem barrierFor_of_null (h : file.communicator = .ok none) (n : Nat) : barrierFor file n = [] := by
  rw [barrierFor, h]

theorem barrierFor_of_group (h : HasGroup file) (n : Nat) : barrierFor file n = [.barrier n] := by
  obtain ⟨communicator, hgroup⟩ := h
  rw [barrierFor, hgroup]

theorem barrier_notMem_of_visits {visits : List Event} (h : ∀ event ∈ visits, IsVisit event) (n : Nat) :
    .barrier n ∉ visits := by
  intro hmem
  obtain ⟨_, _, _, heq⟩ := h _ hmem
  cases heq

/-- A null group is waited for without a barrier, and that was it. -/
theorem barrier_notMem_of_null (hall : ∀ other ∈ before ++ file :: after, Obliging other)
    (hfile : file.intent = .ok .readWrite) (hwaits : Waits check before file)
    (hnull : file.communicator = .ok none) (n : Nat) :
    .barrier n ∉ (flushFiles check false (before ++ file :: after).zipIdx).2 := by
  rw [events_flushFiles_of_waits hall hfile hwaits, barrierFor_of_null hnull]
  simp [barrier_notMem_askedOfAll]

theorem synchronisesOnce_of_group {visits : List Event} (hvisits : ∀ event ∈ visits, IsVisit event)
    (hall : ∀ other ∈ before ++ file :: after, Obliging other) (hfile : file.intent = .ok .readWrite)
    (hwaits : Waits check before file) (hgroup : HasGroup file) :
    SynchronisesOnce check (before ++ file :: after)
      (visits ++ (flushFiles check false (before ++ file :: after).zipIdx).2) := by
  have hearly {n : Nat} {other : OpenFile} (hmem : (other, n) ∈ before.zipIdx)
      (hwritable : other.intent = .ok .readWrite) : other.collective = false :=
    hwaits.2.2 other (List.fst_mem_of_mem_zipIdx hmem) hwritable
  rw [events_flushFiles_of_waits hall hfile hwaits, barrierFor_of_group hgroup]
  refine ⟨fun _ _ => ⟨visits ++ (askedOfAll before.zipIdx ++
    [.intent before.length, .communicator before.length]), before.length,
    .flush before.length :: askedOfAll (after.zipIdx (before.length + 1)), by simp, fun n => ?_,
    fun n other hother hcollective _ => ⟨fun hmem => ?_, fun hwritable => ?_⟩⟩, fun hnever => ?_⟩
  · simp [barrier_notMem_askedOfAll, barrier_notMem_of_visits hvisits]
  · -- files that were flushed before are not shared
    rcases List.mem_append.1 hmem with hmem | hmem
    · obtain ⟨_, _, _, heq⟩ := hvisits _ hmem
      cases heq
    rcases List.mem_append.1 hmem with hmem | hmem
    · obtain ⟨earlier, hearlier, hwritable⟩ := flush_mem_askedOfAll.1 hmem
      have hget := List.mem_zipIdx_iff_getElem?.1 hearlier
      obtain ⟨hlt, -⟩ := List.getElem?_eq_some_iff.1 hget
      rw [List.getElem?_append_left hlt, hget] at hother
      cases hother
      rw [hearly hearlier hwritable] at hcollective
      cases hcollective
    · simp at hmem
  · have hmem : (other, n) ∈ (before ++ file :: after).zipIdx := List.mem_zipIdx_iff_getElem?.2 hother
    rw [List.zipIdx_append, List.zipIdx_cons, Nat.zero_add, List.mem_append, List.mem_cons] at hmem
    rcases hmem with hmem | heq | hmem
    · rw [hearly hmem hwritable] at hcollective
      cases hcollective
    · cases heq
      exact List.mem_cons_self
    · exact List.mem_cons_of_mem _ (flush_mem_askedOfAll.2 ⟨other, hmem, hwritable⟩)
  · exact absurd hgroup (hnever hwaits.1 file (by simp) ⟨hfile, hwaits.2.1⟩)

/-- **One barrier is issued, if any group asks for it, unless a null group came first.** -/
theorem synchronisesOnce_flushFiles_iff {visits : List Event}
    (hvisits : ∀ event ∈ visits, IsVisit event) (hall : ∀ file ∈ files, Obliging file) :
    SynchronisesOnce check files (visits ++ (flushFiles check false files.zipIdx).2) ↔
      ¬ Overlooks check files := by
  have hnone {events : List Event} (h : ∀ n, .barrier n ∉ events) (n : Nat) :
      .barrier n ∉ visits ++ events := by
    rw [List.mem_append, not_or]
    exact ⟨barrier_notMem_of_visits hvisits n, h n⟩
  constructor
  · rintro hsynchronises ⟨before, file, after, rfl, hfile, hwaits, hnull, later, hlater, hshared, hgroup⟩
    obtain ⟨_, number, _, heq, -⟩ := hsynchronises.once hwaits.1 ⟨later, by simp [hlater], hshared, hgroup⟩
    refine hnone (barrier_notMem_of_null hall hfile hwaits hnull) number ?_
    rw [heq]
    simp
  · intro hoverlooks
    rcases exists_first_shared check files with hunshared | ⟨before, file, after, rfl, hfile, hwaits⟩
    · refine ⟨fun hcheck ⟨file, hmem, hshared, _⟩ => ?_, fun _ => hnone fun n => ?_⟩
      · rw [hunshared file hmem hshared] at hcheck
        cases hcheck
      · rw [events_flushFiles_of_none hall hunshared]
        exact barrier_notMem_askedOfAll _ n
    obtain ⟨group, hgroup, -⟩ := (hall file (by simp)).communicator
    cases group with
    | some communicator =>
      exact synchronisesOnce_of_group hvisits hall hfile hwaits ⟨communicator, hgroup⟩
    | none =>
      refine ⟨fun _ ⟨other, hmem, hshared, hother⟩ => (hoverlooks ?_).elim,
        fun _ => hnone (barrier_notMem_of_null hall hfile hwaits hgroup)⟩
      -- the file with a group comes after the one with a null group
      rcases List.mem_append.1 hmem with hmem | hmem
      · have hcollective := hwaits.2.2 other hmem hshared.1
        rw [hshared.2] at hcollective
        cases hcollective
      rcases List.mem_cons.1 hmem with rfl | hmem
      · obtain ⟨_, hsome⟩ := hother
        rw [hgroup] at hsome
        cases hsome
      · exact ⟨before, file, after, rfl, hfile, hwaits, hgroup, other, hmem, hshared, hother⟩

end OpenObjects

namespace FilterRegistry

open OpenObjects

variable {r : FilterRegistry} {id : FilterId} {objects : OpenObjects}

theorem mem_events_unregister {event : Event} (h : event ∈ (r.unregister id objects).2) :
    IsVisit event ∨ event ∈ (flushFiles r.collectiveCheck false objects.files.zipIdx).2 := by
  by_cases hknown : r.Known id
  · rw [events_unregister hknown] at h
    by_cases hfree : Free id objects
    · rw [release_of_free hfree] at h
      exact (List.mem_append.1 h).imp_left isVisit_of_mem_refuseIfUsed
    · obtain ⟨error, herror⟩ := refuseIfUsed_of_not_free hfree
      rw [release_of_error herror] at h
      exact .inl (isVisit_of_mem_refuseIfUsed h)
  · obtain ⟨error, heq⟩ := unregister_of_not_known hknown objects
    rw [heq] at h
    cases h

/-- **At most one barrier.**  Without the check there is never a barrier.  If everything that open objects
are asked for goes well, a filter that may go is removed with exactly one barrier if a shared file has a
group, and with none otherwise, except for files of which a null group is overlooked: then there is none
either. -/
theorem synchronisesOnce_iff (r : FilterRegistry) (id : FilterId) (objects : OpenObjects) :
    (r.collectiveCheck = false → ∀ n, .barrier n ∉ (r.unregister id objects).2) ∧
    (r.Known id → Free id objects → (∀ file ∈ objects.files, Obliging file) →
      (SynchronisesOnce r.collectiveCheck objects.files (r.unregister id objects).2 ↔
        ¬ Overlooks r.collectiveCheck objects.files) ∧
      (Overlooks r.collectiveCheck objects.files →
        ∀ n, .barrier n ∉ (r.unregister id objects).2)) := by
  refine ⟨fun hcheck n hmem => ?_, fun hknown hfree hall => ?_⟩
  · rcases mem_events_unregister hmem with ⟨_, _, _, heq⟩ | hmem
    · cases heq
    · exact barrier_notMem_flushFiles (by rw [hcheck]; rfl) n hmem
  · have hvisits : ∀ event ∈ (refuseIfUsed objects id visitedKinds).2, IsVisit event :=
      fun _ => isVisit_of_mem_refuseIfUsed
    refine ⟨?_, fun hoverlooks n hmem => ?_⟩
    · rw [events_unregister hknown, release_of_free hfree]
      exact synchronisesOnce_flushFiles_iff hvisits hall
    · obtain ⟨before, file, after, hfiles, hfile, hwaits, hnull, -⟩ := hoverlooks
      rcases mem_events_unregister hmem with ⟨_, _, _, heq⟩ | hmem
      · cases heq
      · rw [hfiles] at hmem hall
        exact barrier_notMem_of_null hall hfile hwaits hnull n hmem

/-- A writable file that was opened by a group of processes, of which nothing goes wrong. -/
def sharedFile (group : Option Communicator) : OpenFile := ⟨.ok .readWrite, true, .ok group, .ok ()⟩

theorem obliging_sharedFile {group : Option Communicator}
    (h : ∀ communicator, group = some communicator → communicator.barrier = .ok ()) :
    Obliging (sharedFile group) := ⟨⟨_, rfl⟩, ⟨group, rfl, h⟩, rfl⟩

/-- A registry with one filter of an application. -/
def oneFilter (check : Bool) : FilterRegistry :=
  ⟨[.ofCodec 300 "sample" (.ofSample .identity .always .keep) (.application 0)], 32, none, check⟩

theorem known_oneFilter (check : Bool) : (oneFilter check).Known 300 :=
  ⟨by decide, by decide, _, List.mem_singleton_self _, rfl⟩

/-- A read-only file and one that is not shared, before two that are. -/
def sharedObjects : OpenObjects where
  datasets := [.ok ⟨[.ofWords 301 .mandatory []], 32⟩]
  groups := []
  files := [⟨.ok .readOnly, true, .ok (some ⟨.ok ()⟩), .ok ()⟩,
    ⟨.ok .readWrite, false, .ok none, .ok ()⟩, sharedFile (some ⟨.ok ()⟩), sharedFile (some ⟨.ok ()⟩)]

theorem free_sharedObjects : Free 300 sharedObjects := by
  intro kind visited hvisited
  cases kind with
  | dataset =>
    obtain rfl := List.mem_singleton.1 hvisited
    exact ⟨_, rfl, by decide⟩
  | group => cases hvisited

theorem obliging_sharedObjects : ∀ file ∈ sharedObjects.files, Obliging file := by
  intro file hfile
  simp only [sharedObjects, List.mem_cons, List.not_mem_nil, or_false] at hfile
  have hgroup : ∀ communicator : Communicator, some ⟨.ok ()⟩ = some communicator →
      communicator.barrier = .ok () := by
    rintro _ ⟨⟩
    rfl
  rcases hfile with rfl | rfl | rfl | rfl
  · exact ⟨⟨_, rfl⟩, ⟨_, rfl, hgroup⟩, rfl⟩
  · exact ⟨⟨_, rfl⟩, ⟨_, rfl, nofun⟩, rfl⟩
  · exact obliging_sharedFile hgroup
  · exact obliging_sharedFile hgroup

/-- The group of the third file is waited for, and without the check none is. -/
theorem synchronisesOnce_iff_shared :
    (oneFilter false).collectiveCheck = false ∧
    (∀ n, .barrier n ∉ ((oneFilter false).unregister 300 sharedObjects).2) ∧
    (oneFilter true).Known 300 ∧ Free 300 sharedObjects ∧
    (∀ file ∈ sharedObjects.files, Obliging file) ∧
    SynchronisesOnce true sharedObjects.files ((oneFilter true).unregister 300 sharedObjects).2 ∧
    ((oneFilter true).unregister 300 sharedObjects).2 =
      [.visited .dataset 0 false, .intent 0, .intent 1, .flush 1, .intent 2, .communicator 2,
        .barrier 2, .flush 2, .intent 3, .flush 3] := by
  refine ⟨rfl, (synchronisesOnce_iff (oneFilter false) 300 sharedObjects).1 rfl, known_oneFilter true,
    free_sharedObjects, obliging_sharedObjects, ?_, rfl⟩
  refine ((synchronisesOnce_iff (oneFilter true) 300 sharedObjects).2 (known_oneFilter true)
    free_sharedObjects obliging_sharedObjects).1.2 ?_
  -- the only file with a null group is not opened by a group at all
  rintro ⟨before, file, after, hfiles, -, ⟨-, hcollective, -⟩, hnull, -⟩
  have hfile : file ∈ sharedObjects.files := hfiles ▸ by simp
  simp only [sharedObjects, List.mem_cons, List.not_mem_nil, or_false] at hfile
  rcases hfile with rfl | rfl | rfl | rfl
  · cases hnull
  · cases hcollective
  · cases hnull
  · cases hnull

/-- A shared file with a null group before one with a group. -/
def overlookedObjects : OpenObjects := ⟨[], [], [sharedFile none, sharedFile (some ⟨.ok ()⟩)]⟩

/-- **A null group keeps later groups from being waited for.** -/
theorem not_synchronisesOnce_overlooked :
    (oneFilter true).Known 300 ∧ Free 300 overlookedObjects ∧
    (∀ file ∈ overlookedObjects.files, Obliging file) ∧
    (∃ file ∈ overlookedObjects.files, IsShared file ∧ HasGroup file) ∧
    ¬ SynchronisesOnce (oneFilter true).collectiveCheck overlookedObjects.files
      ((oneFilter true).unregister 300 overlookedObjects).2 := by
  have hshared : ∃ file ∈ overlookedObjects.files, IsShared file ∧ HasGroup file :=
    ⟨sharedFile (some ⟨.ok ()⟩), by simp [overlookedObjects], ⟨rfl, rfl⟩, _, rfl⟩
  refine ⟨known_oneFilter true, fun kind => ?_, fun file hfile => ?_, hshared, fun h => ?_⟩
  · cases kind with
    | dataset => exact nofun
    | group => exact nofun
  · simp only [overlookedObjects, List.mem_cons, List.not_mem_nil, or_false] at hfile
    rcases hfile with rfl | rfl
    · exact obliging_sharedFile nofun
    · refine obliging_sharedFile ?_
      rintro _ ⟨⟩
      rfl
  · have hevents : ((oneFilter true).unregister 300 overlookedObjects).2 =
        [.intent 0, .communicator 0, .flush 0, .intent 1, .flush 1] := by rfl
    obtain ⟨before, number, after, heq, -⟩ := h.once rfl hshared
    have hmem : OpenObjects.Event.barrier number ∈
        ((oneFilter true).unregister 300 overlookedObjects).2 := by
      rw [heq]
      simp
    rw [hevents] at hmem
    simp at hmem

end FilterRegistry

end FilteredChunks
