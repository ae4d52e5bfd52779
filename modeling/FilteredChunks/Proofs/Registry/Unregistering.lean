import FilteredChunks.Proofs.Registry.Table
import FilteredChunks.Proofs.Registry.Visits

/-!
# Removing a filter

A filter of an application goes only if no open object uses it and all writable files were flushed.
Datasets are visited, then groups, then files, and the first thing in the way ends all of that.
`AllOrNothing` says what must come of it: the class goes exactly if nothing was in the way, and otherwise
the registry is what it was and nothing is counted.
-/

namespace FilteredChunks

theorem FilterId.isPredefined_iff {id : FilterId} : id.isPredefined = true ↔ id < 256 :=
  decide_eq_true_iff

namespace FilterRegistry

open OpenObjects

/-- A filter of an application that is registered. -/
structure Known (r : FilterRegistry) (id : FilterId) : Prop where
  valid : 0 ≤ id ∧ id ≤ 65535
  application : 256 ≤ id
  registered : ∃ c ∈ r.classes, c.id = id

/-- No open object uses a filter, and each of them could be visited. -/
def Free (id : FilterId) (objects : OpenObjects) : Prop :=
  ∀ kind, Unused id (objects.pipelines kind)

/-- Nothing is in the way of removing a filter. -/
structure Removable (r : FilterRegistry) (id : FilterId) (objects : OpenObjects) : Prop where
  known : r.Known id
  free : Free id objects
  files : AllPass r.collectiveCheck objects.files

/-- What removing a filter must do. -/
structure AllOrNothing (r : FilterRegistry) (id : FilterId) (objects : OpenObjects)
    (out : Registering Unit × List Event) : Prop where
  /-- The class goes, the others stay in their order, and that is counted. -/
  removed : Removable r id objects → ∃ before c after,
    r.classes = before ++ c :: after ∧ c.id = id ∧ (∀ other ∈ before, other.id ≠ id) ∧
    out.1 = ⟨.ok (), { r with classes := before ++ after },
      [.count Metrics.unregistered 1, .set Metrics.registrySize (before ++ after).length]⟩
  /-- Everything stays, and nothing is counted. -/
  kept : ¬ Removable r id objects → ∃ error, out.1 = ⟨.error error, r, []⟩
  /-- What datasets refuse for is reported first. -/
  dataset : ∀ error, r.Known id → Refuses .dataset id objects.datasets error →
    out.1.result = .error error
  group : ∀ error, r.Known id → Unused id objects.datasets →
    Refuses .group id objects.groups error → out.1.result = .error error
  /-- As long as a dataset or group may need the filter, files are left alone. -/
  visits : ¬ (r.Known id ∧ Free id objects) → ∀ event ∈ out.2, IsVisit event
  flushing : r.Known id → Free id objects →
    Flushing r.collectiveCheck objects.files out.1.result (flushed out.2)

variable {r : FilterRegistry} {id : FilterId} {objects : OpenObjects} {kind : ObjectKind}
  {kinds : List ObjectKind} {error : FilterError}

/-! ### The course of a removal -/

theorem refuseIfUsed_of_unused (h : Unused id (objects.pipelines kind)) :
    (refuseIfUsed objects id (kind :: kinds)).1 = (refuseIfUsed objects id kinds).1 := by
  obtain ⟨events, huses⟩ :
      ∃ events, uses kind id (objects.pipelines kind).zipIdx = (.ok false, events) :=
    ⟨_, Prod.ext (uses_of_unused h) rfl⟩
  rw [refuseIfUsed, huses]
  rfl

theorem refuseIfUsed_of_refuses (h : Refuses kind id (objects.pipelines kind) error) :
    (refuseIfUsed objects id (kind :: kinds)).1 = .error error := by
  cases h with
  | used before after p hpipelines hbefore hused =>
    obtain ⟨events, huses⟩ :
        ∃ events, uses kind id (objects.pipelines kind).zipIdx = (.ok true, events) := by
      refine ⟨_, Prod.ext ?_ rfl⟩
      rw [hpipelines, uses_append hbefore, List.zipIdx_cons, uses,
        if_pos (FilterPipeline.contains_iff.2 hused)]
    rw [refuseIfUsed, huses]
  | failed before after _ hpipelines hbefore =>
    obtain ⟨events, huses⟩ :
        ∃ events, uses kind id (objects.pipelines kind).zipIdx = (.error error, events) := by
      refine ⟨_, Prod.ext ?_ rfl⟩
      rw [hpipelines, uses_append hbefore, List.zipIdx_cons, uses]
    rw [refuseIfUsed, huses]

theorem isVisit_of_mem_refuseIfUsed {event : Event}
    (h : event ∈ (refuseIfUsed objects id kinds).2) : IsVisit event := by
  induction kinds with
  | nil => cases h
  | cons kind kinds ih =>
    have hvisits (event : Event) (hevent : event ∈ (uses kind id (objects.pipelines kind).zipIdx).2) :
        IsVisit event := ⟨kind, isVisit_of_mem_uses hevent⟩
    rw [refuseIfUsed] at h
    split at h
    · next heq => exact hvisits event (heq ▸ h)
    · next heq => exact hvisits event (heq ▸ h)
    · next heq =>
      rcases List.mem_append.1 h with h | h
      · exact hvisits event (heq ▸ h)
      · exact ih h

/-- Open objects that may need the filter refuse; what datasets refuse for counts first. -/
theorem refuseIfUsed_of_not_free (h : ¬ Free id objects) :
    ∃ error, (refuseIfUsed objects id visitedKinds).1 = .error error := by
  rw [visitedKinds]
  rcases unused_or_refuses .dataset id objects.datasets with hdatasets | ⟨error, hrefuses⟩
  · rcases unused_or_refuses .group id objects.groups with hgroups | ⟨error, hrefuses⟩
    · exact absurd (fun kind => by cases kind <;> assumption) h
    · exact ⟨error, (refuseIfUsed_of_unused hdatasets).trans (refuseIfUsed_of_refuses hrefuses)⟩
  · exact ⟨error, refuseIfUsed_of_refuses hrefuses⟩

theorem refuseIfUsed_of_free (h : Free id objects) :
    (refuseIfUsed objects id visitedKinds).1 = .ok () := by
  rw [visitedKinds, refuseIfUsed_of_unused (h .dataset), refuseIfUsed_of_unused (h .group)]
  rfl

theorem release_of_error (h : (refuseIfUsed objects id visitedKinds).1 = .error error) :
    r.release id objects = (.error error, (refuseIfUsed objects id visitedKinds).2) := by
  obtain ⟨events, hrefuse⟩ :
      ∃ events, refuseIfUsed objects id visitedKinds = (.error error, events) :=
    ⟨_, Prod.ext h rfl⟩
  rw [release, hrefuse]

theorem release_of_free (h : Free id objects) :
    r.release id objects = (flushFiles r.collectiveCheck false objects.files.zipIdx).after
      (refuseIfUsed objects id visitedKinds).2 := by
  obtain ⟨events, hrefuse⟩ :
      ∃ events, refuseIfUsed objects id visitedKinds = (.ok (), events) :=
    ⟨_, Prod.ext (refuseIfUsed_of_free h) rfl⟩
  rw [release, hrefuse]

/-- Releasing a filter that no open object uses comes down to flushing files. -/
theorem flushing_release (h : Free id objects) :
    Flushing r.collectiveCheck objects.files (r.release id objects).1
      (flushed (r.release id objects).2) := by
  have hissued : false = true ↔ Issued r.collectiveCheck [] := by simp [Issued]
  have hflushing := flushing_flushFiles (allPass_nil r.collectiveCheck) hissued objects.files
  rw [release_of_free h, Asked.after, flushed_append,
    flushed_of_visits fun event => isVisit_of_mem_refuseIfUsed]
  exact hflushing

theorem unregister_of_not_known (h : ¬ r.Known id) (objects : OpenObjects) :
    ∃ error, r.unregister id objects = (⟨.error error, r, []⟩, []) := by
  unfold unregister
  split
  · exact ⟨_, rfl⟩
  next hvalid =>
  split
  · exact ⟨_, rfl⟩
  next hfree =>
  split
  · exact ⟨_, rfl⟩
  next i hi =>
  obtain ⟨c, hc, hid⟩ := getElem?_of_position? hi
  rw [FilterId.isPredefined_iff] at hfree
  exact absurd ⟨FilterId.isValid_iff.1 (by simpa using hvalid), Int.not_lt.1 hfree, c,
    List.mem_of_getElem? hc, hid⟩ h

theorem exists_split_of_position? {i : Nat} (h : r.position? id = some i) :
    ∃ before c after, r.classes = before ++ c :: after ∧ c.id = id ∧
      (∀ other ∈ before, other.id ≠ id) ∧ r.classes.eraseIdx i = before ++ after := by
  obtain ⟨hi, hid, hbefore⟩ := List.findIdx?_eq_some_iff_getElem.1 h
  refine ⟨r.classes.take i, r.classes[i], r.classes.drop (i + 1), ?_, by simpa using hid, ?_,
    List.eraseIdx_eq_take_drop_succ _ _⟩
  · rw [List.getElem_cons_drop, List.take_append_drop]
  · intro other hother
    obtain ⟨j, hj, rfl⟩ := List.mem_take_iff_getElem.1 hother
    simpa using hbefore j (by omega)

theorem unregister_of_known (h : r.Known id) (objects : OpenObjects) :
    ∃ before c after, r.classes = before ++ c :: after ∧ c.id = id ∧
      (∀ other ∈ before, other.id ≠ id) ∧
      r.unregister id objects =
        match r.release id objects with
        | (.error error, events) => (⟨.error error, r, []⟩, events)
        | (.ok (), events) =>
          (⟨.ok (), { r with classes := before ++ after },
            [.count Metrics.unregistered 1, .set Metrics.registrySize (before ++ after).length]⟩,
            events) := by
  obtain ⟨hvalid, happlication, c, hc, hid⟩ := h
  have hfree : ¬ id.isPredefined = true := by
    rw [FilterId.isPredefined_iff]
    exact Int.not_lt.2 happlication
  have hposition : (r.position? id).isSome = true := by
    rw [position?, List.findIdx?_isSome, List.any_eq_true]
    exact ⟨c, hc, by simpa using hid⟩
  obtain ⟨i, hi⟩ := Option.isSome_iff_exists.1 hposition
  obtain ⟨before, c, after, hclasses, hid, hbefore, herase⟩ := exists_split_of_position? hi
  refine ⟨before, c, after, hclasses, hid, hbefore, ?_⟩
  rw [unregister, FilterId.isValid_iff.2 hvalid, if_neg (by decide), if_neg hfree, hi]
  dsimp only
  rw [herase]
  rfl

theorem result_unregister (h : r.Known id) (objects : OpenObjects) :
    (r.unregister id objects).1.result = (r.release id objects).1 := by
  obtain ⟨before, c, after, -, -, -, heq⟩ := unregister_of_known h objects
  rw [heq]
  split <;> next hrelease => rw [hrelease]

theorem events_unregister (h : r.Known id) (objects : OpenObjects) :
    (r.unregister id objects).2 = (r.release id objects).2 := by
  obtain ⟨before, c, after, -, -, -, heq⟩ := unregister_of_known h objects
  rw [heq]
  split <;> next hrelease => rw [hrelease]

theorem removable_iff (h : r.Known id) :
    Removable r id objects ↔ (r.release id objects).1 = .ok () := by
  by_cases hfree : Free id objects
  · rw [← (flushing_release hfree).allPass_iff]
    exact ⟨fun hremovable => hremovable.files, fun hfiles => ⟨h, hfree, hfiles⟩⟩
  · obtain ⟨error, herror⟩ := refuseIfUsed_of_not_free hfree
    rw [release_of_error herror]
    exact ⟨fun hremovable => absurd hremovable.free hfree, nofun⟩

/-- **Removing a filter is all or nothing.** -/
theorem allOrNothing_unregister (r : FilterRegistry) (id : FilterId) (objects : OpenObjects) :
    AllOrNothing r id objects (r.unregister id objects) where
  removed h := by
    obtain ⟨before, c, after, hclasses, hid, hbefore, heq⟩ := unregister_of_known h.known objects
    obtain ⟨events, hrelease⟩ : ∃ events, r.release id objects = (.ok (), events) :=
      ⟨_, Prod.ext ((removable_iff h.known).1 h) rfl⟩
    rw [heq, hrelease]
    exact ⟨before, c, after, hclasses, hid, hbefore, rfl⟩
  kept h := by
    by_cases hknown : r.Known id
    · obtain ⟨before, c, after, -, -, -, heq⟩ := unregister_of_known hknown objects
      rw [removable_iff hknown] at h
      rw [heq]
      split
      · next error events _ => exact ⟨error, rfl⟩
      · next hrelease => exact absurd (congrArg Prod.fst hrelease) h
    · obtain ⟨error, heq⟩ := unregister_of_not_known hknown objects
      exact ⟨error, by rw [heq]⟩
  dataset error hknown hrefuses := by
    rw [result_unregister hknown, release_of_error (refuseIfUsed_of_refuses hrefuses)]
  group error hknown hdatasets hrefuses := by
    rw [result_unregister hknown, release_of_error
      ((refuseIfUsed_of_unused hdatasets).trans (refuseIfUsed_of_refuses hrefuses))]
  visits h event hevent := by
    by_cases hknown : r.Known id
    · obtain ⟨error, herror⟩ := refuseIfUsed_of_not_free fun hfree => h ⟨hknown, hfree⟩
      rw [events_unregister hknown, release_of_error herror] at hevent
      exact isVisit_of_mem_refuseIfUsed hevent
    · obtain ⟨error, heq⟩ := unregister_of_not_known hknown objects
      rw [heq] at hevent
      cases hevent
  flushing hknown hfree := by
    rw [result_unregister hknown, events_unregister hknown]
    exact flushing_release hfree

end FilterRegistry

end FilteredChunks
