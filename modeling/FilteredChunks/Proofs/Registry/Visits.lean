import FilteredChunks.OpenObjects
import Mathlib.Data.List.Basic
import Mathlib.Tactic.ByContra
import Mathlib.Tactic.Tauto

/-!
# Visits of open objects

What comes of asking open objects one after the other.  A visit of pipelines finds a filter `Unused`, or
is refused by the first pipeline that has it or cannot be visited (`Refuses`).  What a file must allow
depends on the files before it, because a group of processes is waited for only once (`Waits`);
`Flushing` says which files are flushed and how that ends.
-/

namespace FilteredChunks

theorem FilterPipeline.contains_iff {p : FilterPipeline} {id : FilterId} :
    p.contains id = true ↔ ∃ step ∈ p.steps, step.id = id := by
  simp [contains, findIndex?, List.findIdx?_isSome]

namespace OpenObjects

variable {kind : ObjectKind} {id : FilterId} {check issued : Bool} {file : OpenFile}
  {error : FilterError} {n : Nat}

/-! ### Visiting pipelines -/

/-- All pipelines can be visited, and a filter is in none of them. -/
def Unused (id : FilterId) (pipelines : List (Except FilterError FilterPipeline)) : Prop :=
  ∀ visited ∈ pipelines, ∃ p, visited = .ok p ∧ ∀ step ∈ p.steps, step.id ≠ id

/-- Why a filter must stay for the sake of pipelines: the first of them that has it, or that cannot be
visited. -/
inductive Refuses (kind : ObjectKind) (id : FilterId)
    (pipelines : List (Except FilterError FilterPipeline)) : FilterError → Prop
  | used (before after : List (Except FilterError FilterPipeline)) (p : FilterPipeline)
      (h : pipelines = before ++ .ok p :: after) (hbefore : Unused id before)
      (hused : ∃ step ∈ p.steps, step.id = id) : Refuses kind id pipelines (.filterInUse id kind)
  | failed (before after : List (Except FilterError FilterPipeline)) (error : FilterError)
      (h : pipelines = before ++ .error error :: after) (hbefore : Unused id before) :
      Refuses kind id pipelines error

/-- A pipeline was looked at, and no file was asked for anything. -/
def IsVisit (event : Event) : Prop := ∃ kind number stopped, event = .visited kind number stopped

variable {pipelines before rest : List (Except FilterError FilterPipeline)}

theorem Unused.cons {p : FilterPipeline} (hp : ¬ ∃ step ∈ p.steps, step.id = id)
    (h : Unused id pipelines) : Unused id (.ok p :: pipelines) := by
  intro visited hvisited
  rcases List.mem_cons.1 hvisited with rfl | hvisited
  · exact ⟨p, rfl, fun step hstep hid => hp ⟨step, hstep, hid⟩⟩
  · exact h visited hvisited

theorem unused_or_refuses (kind : ObjectKind) (id : FilterId)
    (pipelines : List (Except FilterError FilterPipeline)) :
    Unused id pipelines ∨ ∃ error, Refuses kind id pipelines error := by
  induction pipelines with
  | nil => exact .inl nofun
  | cons visited rest ih =>
    match visited with
    | .error error => exact .inr ⟨error, .failed [] rest error rfl nofun⟩
    | .ok p =>
      by_cases hused : ∃ step ∈ p.steps, step.id = id
      · exact .inr ⟨_, .used [] rest p rfl nofun hused⟩
      rcases ih with hunused | ⟨_, hrefuses⟩
      · exact .inl (hunused.cons hused)
      cases hrefuses with
      | used before after q h hbefore hq =>
        exact .inr ⟨_, .used (.ok p :: before) after q (by rw [h]; rfl) (hbefore.cons hused) hq⟩
      | failed before after error h hbefore =>
        exact .inr ⟨_, .failed (.ok p :: before) after _ (by rw [h]; rfl) (hbefore.cons hused)⟩

theorem uses_append (h : Unused id before) :
    (uses kind id ((before ++ rest).zipIdx n)).1 =
      (uses kind id (rest.zipIdx (n + before.length))).1 := by
  induction before generalizing n with
  | nil => rfl
  | cons visited before ih =>
    obtain ⟨p, rfl, hp⟩ := h visited List.mem_cons_self
    have hcontains : ¬ p.contains id = true := by
      rw [FilterPipeline.contains_iff]
      rintro ⟨step, hstep, hid⟩
      exact hp step hstep hid
    have hbefore : Unused id before := fun visited hvisited => h visited (.tail _ hvisited)
    rw [List.cons_append, List.zipIdx_cons, uses, if_neg hcontains, Asked.after, ih hbefore,
      List.length_cons, Nat.add_right_comm, Nat.add_assoc]

theorem uses_of_unused (h : Unused id pipelines) :
    (uses kind id (pipelines.zipIdx n)).1 = .ok false := by
  rw [← List.append_nil pipelines, uses_append h]
  rfl

theorem isVisit_of_mem_uses {visits : List (Except FilterError FilterPipeline × Nat)} {event : Event}
    (h : event ∈ (uses kind id visits).2) :
    ∃ number stopped, event = .visited kind number stopped := by
  induction visits with
  | nil => cases h
  | cons visit visits ih =>
    obtain ⟨visited, number⟩ := visit
    match visited with
    | .error error => cases h
    | .ok p =>
      rw [uses] at h
      split at h
      · exact ⟨number, true, List.mem_singleton.1 h⟩
      · rcases List.mem_append.1 h with h | h
        · exact ⟨number, false, List.mem_singleton.1 h⟩
        · exact ih h

/-! ### Flushing files -/

/-- The group of a file that is opened together is waited for, unless one was waited for before. -/
def Waits (check : Bool) (before : List OpenFile) (file : OpenFile) : Prop :=
  check = true ∧ file.collective = true ∧
    ∀ earlier ∈ before, earlier.intent = .ok .readWrite → earlier.collective = false

/-- There is no group to wait for, or waiting for it goes well. -/
def Joins (file : OpenFile) : Prop :=
  file.communicator = .ok none ∨
    ∃ communicator, file.communicator = .ok (some communicator) ∧ communicator.barrier = .ok ()

/-- A writable file, of which nothing is in the way of a flush. -/
structure Flushable (check : Bool) (before : List OpenFile) (file : OpenFile) : Prop where
  writable : file.intent = .ok .readWrite
  joins : Waits check before file → Joins file

/-- Everything that a file is asked for after the files before it goes well. -/
def Passes (check : Bool) (before : List OpenFile) (file : OpenFile) : Prop :=
  file.intent = .ok .readOnly ∨ Flushable check before file ∧ file.flush = .ok ()

/-- Everything that files are asked for goes well. -/
def AllPass (check : Bool) (files : List OpenFile) : Prop :=
  ∀ before file after, files = before ++ file :: after → Passes check before file

/-- What a file fails with before it is flushed. -/
inductive Stops (check : Bool) (before : List OpenFile) (file : OpenFile) : FilterError → Prop
  | intent (error : FilterError) (h : file.intent = .error error) : Stops check before file error
  | communicator (error : FilterError) (hfile : file.intent = .ok .readWrite)
      (hwaits : Waits check before file) (h : file.communicator = .error error) :
      Stops check before file (error.within .gettingCommunicator)
  | barrier (error : FilterError) (hfile : file.intent = .ok .readWrite)
      (hwaits : Waits check before file) (communicator : Communicator)
      (hgroup : file.communicator = .ok (some communicator))
      (h : communicator.barrier = .error error) :
      Stops check before file (error.within .issuingBarrier)

/-- The numbers of the writable files. -/
def writable (files : List OpenFile) : List Nat :=
  files.zipIdx.filterMap fun (file, number) =>
    match file.intent with
    | .ok .readWrite => some number
    | _ => none

/-- The numbers of the files that were flushed. -/
def flushed (events : List Event) : List Nat :=
  events.filterMap fun event =>
    match event with
    | .flush number => some number
    | _ => none

/-- How flushing files ends, and which of them are flushed: the writable ones, up to the first file that
fails. -/
inductive Flushing (check : Bool) (files : List OpenFile) :
    Except FilterError Unit → List Nat → Prop
  | all (h : AllPass check files) : Flushing check files (.ok ()) (writable files)
  /-- A file fails before it is flushed. -/
  | stopped (before after : List OpenFile) (file : OpenFile) (error : FilterError)
      (h : files = before ++ file :: after) (hbefore : AllPass check before)
      (hstops : Stops check before file error) :
      Flushing check files (.error error) (writable before)
  /-- The flush of a file fails. -/
  | refused (before after : List OpenFile) (file : OpenFile) (error : FilterError)
      (h : files = before ++ file :: after) (hbefore : AllPass check before)
      (hfile : Flushable check before file) (herror : file.flush = .error error) :
      Flushing check files (.error (error.within .flushingFiles)) (writable before ++ [before.length])

/-- A group has been waited for among files that passed. -/
def Issued (check : Bool) (done : List OpenFile) : Prop :=
  check = true ∧ ∃ file ∈ done, file.intent = .ok .readWrite ∧ file.collective = true

variable {done files : List OpenFile}

@[simp]
theorem flushed_append (events₁ events₂ : List Event) :
    flushed (events₁ ++ events₂) = flushed events₁ ++ flushed events₂ :=
  List.filterMap_append

theorem flushed_of_visits {events : List Event} (h : ∀ event ∈ events, IsVisit event) :
    flushed events = [] := by
  rw [flushed, List.filterMap_eq_nil_iff]
  intro event hevent
  obtain ⟨_, _, _, rfl⟩ := h event hevent
  rfl

theorem writable_concat_of_readOnly (h : file.intent = .ok .readOnly) :
    writable (done ++ [file]) = writable done := by
  simp [writable, List.zipIdx_append, h]

theorem writable_concat_of_readWrite (h : file.intent = .ok .readWrite) :
    writable (done ++ [file]) = writable done ++ [done.length] := by
  simp [writable, List.zipIdx_append, h]

theorem allPass_nil (check : Bool) : AllPass check [] := by
  intro before file after h
  simp at h

theorem AllPass.concat (h : AllPass check done) (hfile : Passes check done file) :
    AllPass check (done ++ [file]) := by
  intro before last after heq
  rcases List.eq_nil_or_concat after with rfl | ⟨after, final, rfl⟩
  · obtain ⟨rfl, hlast⟩ := List.append_inj' heq rfl
    cases hlast
    exact hfile
  · rw [List.concat_eq_append, ← List.cons_append, ← List.append_assoc] at heq
    exact h before last after (List.append_inj' heq rfl).1

theorem issued_concat_of_readOnly (h : file.intent = .ok .readOnly) :
    Issued check (done ++ [file]) ↔ Issued check done := by
  simp [Issued, h, or_and_right, exists_or]

theorem issued_concat_of_readWrite (h : file.intent = .ok .readWrite) :
    Issued check (done ++ [file]) ↔ Issued check done ∨ check = true ∧ file.collective = true := by
  simp [Issued, h, or_and_right, exists_or, and_or_left]

theorem waits_iff : Waits check done file ↔
    check = true ∧ file.collective = true ∧ ¬ Issued check done := by
  unfold Waits Issued
  constructor
  · rintro ⟨hcheck, hfile, hdone⟩
    refine ⟨hcheck, hfile, ?_⟩
    rintro ⟨-, earlier, hmem, hwritable, hcollective⟩
    rw [hdone earlier hmem hwritable] at hcollective
    cases hcollective
  · rintro ⟨hcheck, hfile, hdone⟩
    refine ⟨hcheck, hfile, fun earlier hmem hwritable => ?_⟩
    by_contra hcollective
    exact hdone ⟨hcheck, earlier, hmem, hwritable, by simpa using hcollective⟩

theorem synchronise_cases (hfile : file.intent = .ok .readWrite) (hwaits : Waits check done file)
    (n : Nat) :
    flushed (synchronise file n).2 = [] ∧
      (Joins file ∧ (synchronise file n).1 = .ok () ∨
        ∃ error, Stops check done file error ∧ (synchronise file n).1 = .error error) := by
  unfold synchronise
  split
  · next error h => exact ⟨rfl, .inr ⟨_, .communicator error hfile hwaits h, rfl⟩⟩
  · next h => exact ⟨rfl, .inl ⟨.inl h, rfl⟩⟩
  · next communicator h =>
    refine ⟨rfl, ?_⟩
    cases hbarrier : communicator.barrier with
    | ok _ => exact .inl ⟨.inr ⟨communicator, h, hbarrier⟩, rfl⟩
    | error error =>
      exact .inr ⟨_, .barrier error hfile hwaits communicator h hbarrier, rfl⟩

/-- A writable file fails before its flush, or is flushed, and then its group has been waited for if
that was called for. -/
theorem flushFiles_cons (hfile : file.intent = .ok .readWrite)
    (hissued : issued = true ↔ Issued check done) (n : Nat) (rest : List (OpenFile × Nat)) :
    (∃ error events, Stops check done file error ∧ flushed events = [] ∧
      flushFiles check issued ((file, n) :: rest) = (.error error, events)) ∨
    Flushable check done file ∧
      ∃ events issued', flushed events = [n] ∧ (issued' = true ↔ Issued check (done ++ [file])) ∧
        flushFiles check issued ((file, n) :: rest) =
          match file.flush with
          | .error error => (.error (error.within .flushingFiles), events)
          | .ok () => (flushFiles check issued' rest).after events := by
  have hwaits : (file.collective && check && !issued) = true ↔ Waits check done file := by
    rw [waits_iff, ← hissued]
    simp only [Bool.and_eq_true, Bool.not_eq_true', Bool.not_eq_true]
    tauto
  have hissued' : (issued || file.collective && check && !issued) = true ↔
      Issued check (done ++ [file]) := by
    rw [issued_concat_of_readWrite hfile, ← hissued]
    cases issued <;> simp [and_comm]
  rw [flushFiles, hfile]
  dsimp only
  by_cases hneeded : (file.collective && check && !issued) = true
  · rw [if_pos hneeded]
    obtain ⟨hflushed, ⟨hjoins, hok⟩ | ⟨error, hstops, herror⟩⟩ :=
      synchronise_cases hfile (hwaits.1 hneeded) n
    · rw [hok]
      refine .inr ⟨⟨hfile, fun _ => hjoins⟩, .intent n :: (synchronise file n).2 ++ [.flush n], _,
        ?_, hissued', rfl⟩
      rw [flushed_append]
      exact congrArg (· ++ [n]) hflushed
    · rw [herror]
      exact .inl ⟨error, .intent n :: (synchronise file n).2, hstops, hflushed, rfl⟩
  · rw [if_neg hneeded]
    refine .inr ⟨⟨hfile, fun h => absurd (hwaits.2 h) hneeded⟩, _, _, ?_, hissued', rfl⟩
    rfl

/-- **Files are asked in their order until one of them fails**, and flushed if they are writable. -/
theorem flushing_flushFiles (hdone : AllPass check done) (hissued : issued = true ↔ Issued check done)
    (rest : List OpenFile) :
    Flushing check (done ++ rest) (flushFiles check issued (rest.zipIdx done.length)).1
      (writable done ++ flushed (flushFiles check issued (rest.zipIdx done.length)).2) := by
  induction rest generalizing done issued with
  | nil =>
    rw [List.append_nil, List.zipIdx_nil, flushFiles, flushed, List.filterMap_nil, List.append_nil]
    exact .all hdone
  | cons file rest ih =>
    rw [List.zipIdx_cons]
    cases hfile : file.intent with
    | error error =>
      rw [flushFiles, hfile]
      have hstopped := Flushing.stopped done rest file error rfl hdone (.intent error hfile)
      rwa [← List.append_nil (writable done)] at hstopped
    | ok intent =>
      -- a file that passes is done with, and the visit goes on
      have hnext {issued' : Bool} (hpasses : Passes check done file)
          (hissued' : issued' = true ↔ Issued check (done ++ [file])) :=
        ih (hdone.concat hpasses) hissued'
      simp only [List.append_assoc, List.singleton_append, List.length_append,
        List.length_singleton] at hnext
      cases intent with
      | readOnly =>
        have hrest := hnext (.inl hfile) (hissued.trans (issued_concat_of_readOnly hfile).symm)
        rw [writable_concat_of_readOnly hfile] at hrest
        rw [flushFiles, hfile]
        exact hrest
      | readWrite =>
        rcases flushFiles_cons hfile hissued done.length (rest.zipIdx (done.length + 1)) with
          ⟨error, events, hstops, hflushed, heq⟩ |
          ⟨hflushable, events, issued', hflushed, hissued', heq⟩
        · rw [heq, hflushed, List.append_nil]
          exact .stopped done rest file error rfl hdone hstops
        · rw [heq]
          cases hflush : file.flush with
          | error error =>
            dsimp only
            rw [hflushed]
            exact .refused done rest file error rfl hdone hflushable hflush
          | ok _ =>
            have hrest := hnext (.inr ⟨hflushable, hflush⟩) hissued'
            rw [writable_concat_of_readWrite hfile, List.append_assoc, ← hflushed,
              ← flushed_append] at hrest
            exact hrest

/-- A group that cannot be waited for stops everything before the first flush. -/
example :
    let group : Communicator := ⟨.error (.collective "rank 3 left")⟩
    let file : OpenFile := ⟨.ok .readWrite, true, .ok (some group), .ok ()⟩
    flushFiles true false [(file, 0), (file, 1)] =
      (.error ((FilterError.collective "rank 3 left").within .issuingBarrier),
        [.intent 0, .communicator 0, .barrier 0]) := by
  rfl

theorem Passes.not_stops {before : List OpenFile} (h : Passes check before file) :
    ¬ Stops check before file error := by
  intro hstops
  rcases h with hreadOnly | ⟨⟨hwritable, hjoins⟩, -⟩
  · cases hstops <;> simp_all
  cases hstops with
  | intent error hintent => simp [hintent] at hwritable
  | communicator error _ hwaits hcommunicator =>
    rcases hjoins hwaits with hnone | ⟨_, hsome, -⟩
    · simp [hcommunicator] at hnone
    · simp [hcommunicator] at hsome
  | barrier error _ hwaits communicator hgroup hbarrier =>
    rcases hjoins hwaits with hnone | ⟨_, hsome, hpassed⟩
    · simp [hgroup] at hnone
    · rw [hgroup] at hsome
      cases hsome
      simp [hbarrier] at hpassed

theorem Passes.flush_eq {before : List OpenFile} (h : Passes check before file)
    (hfile : file.intent = .ok .readWrite) : file.flush = .ok () := by
  rcases h with hreadOnly | ⟨-, hflush⟩
  · simp [hfile] at hreadOnly
  · exact hflush

theorem Flushing.allPass_iff {result : Except FilterError Unit} {numbers : List Nat}
    (h : Flushing check files result numbers) : AllPass check files ↔ result = .ok () := by
  cases h with
  | all h => exact ⟨fun _ => rfl, fun _ => h⟩
  | stopped before after file error h hbefore hstops =>
    exact ⟨fun hall => absurd hstops (hall before file after h).not_stops, nofun⟩
  | refused before after file error h hbefore hfile herror =>
    refine ⟨fun hall => ?_, nofun⟩
    have hflush := (hall before file after h).flush_eq hfile.writable
    rw [herror] at hflush
    cases hflush

end OpenObjects

end FilteredChunks
