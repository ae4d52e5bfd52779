import FilteredChunks.Proofs.Engine.Bounds
import FilteredChunks.Proofs.Engine.Course
import Mathlib.Algebra.Group.Nat.Defs
import Mathlib.Order.Bounds.Basic

/-!
# The table of a registry

What one change does to the classes of a registry and to its slots.  Entering a class puts it in the
place of the one with its number, or at the end (`Enters`).  A table is `Sound` for a number of classes
if it never had more than these at a time: its numbers are valid and distinct, and its slots are the
fewest, in doublings of 32, that they need.

A source is asked to load what it does not have, and a loader finds nothing with another number, so
loading only ever appends (`prefix_of_fills`).
-/

namespace FilteredChunks

theorem Plugin.id_of_load {loader : Loader} {id : FilterId} {c : FilterClass}
    (h : loader.load id = some c) : c.id = id := by
  obtain ⟨dir, file, hprobe⟩ := exists_probe_of_load h
  obtain ⟨-, -, -, -, -, -, hid⟩ := probe_eq_some_iff.1 hprobe
  exact hid

theorem Engine.Uses.provides {σ : Type} [CodecSource σ] {direction : Direction}
    {pipeline : FilterPipeline} {source : σ} {c : FilterClass}
    (h : Uses direction pipeline source c) : CodecSource.Provides source c := by
  obtain ⟨s, index, step, hs, -, hclass⟩ := h
  have hleads : CodecSource.Leads source s := by
    clear hclass
    induction hs with
    | refl => exact .refl
    | load _ _ step _ ih => exact .load ih step
  refine ⟨s, hleads, ?_⟩
  unfold classFor at hclass
  split at hclass
  · next hc =>
    cases hclass
    exact .inl ⟨index, step, hc⟩
  · cases hclass
  split at hclass
  · next hl => exact .inr ⟨step, hclass ▸ hl⟩
  · cases hclass

namespace FilterRegistry

/-- What becomes of classes when one is entered: it takes the place of the one with its number, or is
the last. -/
inductive Enters (classes : List FilterClass) (c : FilterClass) : List FilterClass → Prop
  | replaced (i : Nat) (old : FilterClass) (hold : classes[i]? = some old) (hid : old.id = c.id) :
      Enters classes c (classes.set i c)
  | appended (hnew : ∀ old ∈ classes, old.id ≠ c.id) : Enters classes c (classes ++ [c])

/-- What becomes of classes when the one with a number goes. -/
inductive Leaves (classes : List FilterClass) (id : FilterId) : List FilterClass → Prop
  | removed (i : Nat) (old : FilterClass) (hold : classes[i]? = some old) (hid : old.id = id) :
      Leaves classes id (classes.eraseIdx i)

/-- The slots of a table that had `peak` classes when it had the most: none before it had one, then the
fewest that are enough. -/
def IsCapacity (peak slots : Nat) : Prop :=
  peak = 0 ∧ slots = 0 ∨ 0 < peak ∧ IsLeast {n | peak ≤ n ∧ ∃ k, n = 32 * 2 ^ k} slots

/-- A table that never had more than `peak` classes. -/
structure Sound (peak : Nat) (r : FilterRegistry) : Prop where
  distinct : r.ids.Nodup
  valid : ∀ id ∈ r.ids, 0 ≤ id ∧ id ≤ 65535
  held : r.classes.length ≤ peak
  capacity : IsCapacity peak r.slots

variable {r : FilterRegistry} {c : FilterClass} {id : FilterId} {peak slots : Nat}

/-! ### Positions -/

theorem getElem?_of_position? {i : Nat} (h : r.position? id = some i) :
    ∃ old, r.classes[i]? = some old ∧ old.id = id := by
  obtain ⟨hi, hid, -⟩ := List.findIdx?_eq_some_iff_getElem.1 h
  exact ⟨r.classes[i], List.getElem?_eq_getElem hi, by simpa using hid⟩

theorem ne_of_position? (h : r.position? id = none) : ∀ old ∈ r.classes, old.id ≠ id := by
  intro old hold
  simpa using List.findIdx?_eq_none_iff.1 h old hold

theorem get?_eq_none_iff : r.get? id = none ↔ ∀ old ∈ r.classes, old.id ≠ id := by
  simp [get?]

theorem position?_eq_none_of_get? (h : r.get? id = none) : r.position? id = none := by
  rw [position?, List.findIdx?_eq_none_iff]
  intro old hold
  simpa using get?_eq_none_iff.1 h old hold

theorem enters_insert (r : FilterRegistry) (c : FilterClass) :
    Enters r.classes c (r.insert c).classes := by
  unfold insert
  split
  · next i hi =>
    obtain ⟨old, hold, hid⟩ := getElem?_of_position? hi
    exact .replaced i old hold hid
  · next hnone => exact .appended (ne_of_position? hnone)

theorem classes_insert_of_get? (h : r.get? c.id = none) :
    (r.insert c).classes = r.classes ++ [c] := by
  rw [insert, position?_eq_none_of_get? h]

/-! ### Slots -/

theorem IsCapacity.le (h : IsCapacity peak slots) : peak ≤ slots := by
  rcases h with ⟨rfl, rfl⟩ | ⟨-, ⟨hle, -⟩, -⟩
  · exact Nat.le_refl 0
  · exact hle

theorem IsCapacity.of_le (h : IsCapacity peak slots) {n : Nat} (hn : n ≤ slots) :
    IsCapacity (max peak n) slots := by
  rcases h with ⟨rfl, rfl⟩ | ⟨hpos, ⟨hle, hform⟩, hleast⟩
  · obtain rfl := Nat.le_zero.1 hn
    exact .inl ⟨rfl, rfl⟩
  · refine .inr ⟨by omega, ⟨by omega, hform⟩, fun m ⟨hm, hmform⟩ => hleast ⟨by omega, hmform⟩⟩

theorem IsCapacity.succ (h : IsCapacity peak peak) :
    IsCapacity (peak + 1) (max firstSlots (2 * peak)) := by
  refine .inr ⟨Nat.succ_pos _, ?_⟩
  rcases h with ⟨rfl, -⟩ | ⟨hpos, ⟨-, k, hk⟩, -⟩
  · refine ⟨⟨by decide, 0, rfl⟩, ?_⟩
    rintro n ⟨-, k, rfl⟩
    have hpow : 0 < 2 ^ k := Nat.two_pow_pos k
    simp only [firstSlots]
    omega
  · have hpow : 0 < 2 ^ k := Nat.two_pow_pos k
    have hdouble : max firstSlots (2 * peak) = 32 * 2 ^ (k + 1) := by
      rw [firstSlots, hk, Nat.pow_succ]
      omega
    rw [hdouble]
    refine ⟨⟨by rw [hk, Nat.pow_succ]; omega, k + 1, rfl⟩, ?_⟩
    rintro n ⟨hn, j, rfl⟩
    -- what exceeds one power of two is at least the next
    have hlt : 2 ^ k < 2 ^ j := by omega
    have hkj : k < j := (Nat.pow_lt_pow_iff_right (by decide)).1 hlt
    exact Nat.mul_le_mul_left 32 (Nat.pow_le_pow_right (by decide) hkj)

/-! ### Changes of a sound table -/

theorem sound_empty : Sound 0 empty :=
  ⟨List.nodup_nil, nofun, Nat.le_refl 0, .inl ⟨rfl, rfl⟩⟩

theorem Sound.congr {r' : FilterRegistry} (h : Sound peak r) (hclasses : r'.classes = r.classes)
    (hslots : r'.slots = r.slots) : Sound peak r' := by
  obtain ⟨hdistinct, hvalid, hheld, hcapacity⟩ := h
  rw [ids, ← hclasses] at hdistinct hvalid
  exact ⟨hdistinct, hvalid, hclasses ▸ hheld, hslots ▸ hcapacity⟩

theorem map_id_set {classes : List FilterClass} {i : Nat} {old : FilterClass}
    (hold : classes[i]? = some old) (hid : old.id = c.id) :
    (classes.set i c).map (·.id) = classes.map (·.id) := by
  have hsame : (classes.map (·.id))[i]? = some c.id := by
    rw [List.getElem?_map, hold, ← hid]
    rfl
  obtain ⟨hi, hget⟩ := List.getElem?_eq_some_iff.1 hsame
  rw [List.map_set, ← hget, List.set_getElem_self]

theorem Sound.insert (h : Sound peak r) (hc : c.id.isValid = true) :
    Sound (max peak (r.insert c).classes.length) (r.insert c) := by
  have hvalid : 0 ≤ c.id ∧ c.id ≤ 65535 := FilterId.isValid_iff.1 hc
  unfold FilterRegistry.insert
  split
  · next i hi =>
    obtain ⟨old, hold, hid⟩ := getElem?_of_position? hi
    have hids : ids { r with classes := r.classes.set i c } = r.ids := map_id_set hold hid
    have hlength : max peak (r.classes.set i c).length = peak := by
      rw [List.length_set]
      exact Nat.max_eq_left h.held
    rw [hlength]
    exact ⟨hids ▸ h.distinct, hids ▸ h.valid, by simpa using h.held, h.capacity⟩
  next hnone =>
  have hnew := ne_of_position? hnone
  have hheld := h.held
  have hcapacity := h.capacity
  refine ⟨?_, ?_, Nat.le_max_right _ _, ?_⟩
  · simp only [ids, List.map_append, List.map_cons, List.map_nil]
    refine List.nodup_append.2 ⟨h.distinct, List.nodup_singleton _, ?_⟩
    rintro _ hid _ hc' rfl
    obtain ⟨old, hold, hid⟩ := List.mem_map.1 hid
    exact hnew old hold (hid.trans (List.mem_singleton.1 hc'))
  · intro id hid
    simp only [ids, List.map_append, List.mem_append, List.map_cons, List.map_nil,
      List.mem_singleton] at hid
    rcases hid with hid | rfl
    · exact h.valid id hid
    · exact hvalid
  · dsimp only
    rw [List.length_append, List.length_singleton]
    split
    · next hfull =>
      -- every slot is taken, so there never were more classes than now
      have hpeak : peak = r.classes.length := by
        have hle := hcapacity.le
        omega
      have hslots : r.slots = peak := by
        have hle := hcapacity.le
        omega
      rw [hslots] at hcapacity ⊢
      rw [← hpeak, Nat.max_eq_right (Nat.le_succ peak)]
      exact hcapacity.succ
    · next hroom => exact hcapacity.of_le (by omega)

theorem Sound.eraseIdx (h : Sound peak r) (i : Nat) :
    Sound peak { r with classes := r.classes.eraseIdx i } := by
  have hsublist : (r.classes.eraseIdx i).Sublist r.classes := List.eraseIdx_sublist _ _
  exact ⟨(hsublist.map _).nodup h.distinct, fun id hid => h.valid id ((hsublist.map _).subset hid),
    Nat.le_trans hsublist.length_le h.held, h.capacity⟩

theorem slots_le_insert (r : FilterRegistry) (c : FilterClass) : r.slots ≤ (r.insert c).slots := by
  unfold FilterRegistry.insert
  split
  · exact Nat.le_refl _
  · dsimp only
    split <;> omega

/-! ### Loading -/

/-- What loading may do to a registry: nothing, or enter a class with the number sought. -/
theorem loadPlugin_cases (r : FilterRegistry) (id : FilterId) :
    (r.loadPlugin id).registry = r ∨
      ∃ c, c.id = id ∧ c.id.isValid = true ∧ (r.loadPlugin id).result = .ok (some c) ∧
        (r.loadPlugin id).registry = r.insert c := by
  unfold loadPlugin
  split
  · exact .inl rfl
  split
  · exact .inl rfl
  next loader _ c hload =>
  dsimp only
  unfold enter
  split
  · exact .inl rfl
  next hinvalid =>
  exact .inr ⟨c, Plugin.id_of_load hload, by simpa using hinvalid, rfl, rfl⟩

/-- What a registry may become by loading classes that it does not have. -/
structure Grows (r r' : FilterRegistry) : Prop where
  appends : r.classes <+: r'.classes
  slots : r.slots ≤ r'.slots
  sound : ∀ peak, Sound peak r → Sound (max peak r'.classes.length) r'

theorem Grows.refl (r : FilterRegistry) : Grows r r :=
  ⟨List.prefix_rfl, Nat.le_refl _, fun _ h => (Nat.max_eq_left h.held).symm ▸ h⟩

theorem Grows.trans {r₁ r₂ r₃ : FilterRegistry} (h₁ : Grows r₁ r₂) (h₂ : Grows r₂ r₃) :
    Grows r₁ r₃ := by
  refine ⟨h₁.appends.trans h₂.appends, Nat.le_trans h₁.slots h₂.slots, fun peak h => ?_⟩
  have hsound := h₂.sound _ (h₁.sound peak h)
  rwa [Nat.max_assoc, Nat.max_eq_right h₂.appends.length_le] at hsound

theorem grows_loadPlugin (h : r.get? id = none) : Grows r (r.loadPlugin id).registry := by
  rcases loadPlugin_cases r id with heq | ⟨c, rfl, hvalid, -, heq⟩
  · rw [heq]
    exact .refl r
  · rw [heq]
    refine ⟨?_, slots_le_insert r c, fun _ hsound => hsound.insert hvalid⟩
    rw [classes_insert_of_get? h]
    exact List.prefix_append _ _

/-- **Loading for runs never replaces a class.** -/
theorem grows_of_fills {r' : FilterRegistry} (h : CodecSource.Fills r r') : Grows r r' := by
  induction h with
  | refl => exact .refl r
  | load _ index step hc ih => exact ih.trans (grows_loadPlugin hc)

/-- What a loader finds does not depend on what has been loaded. -/
theorem result_loadPlugin {r' : FilterRegistry} (h : r'.loader = r.loader) (id : FilterId) :
    (r'.loadPlugin id).result = (r.loadPlugin id).result := by
  unfold loadPlugin
  rw [h]
  split
  · rfl
  split
  · rfl
  unfold enter
  dsimp only
  split <;> rfl

theorem classFor_loadPlugin (h : r.get? id = none) (index : Nat) (step : FilterStep) :
    Engine.classFor .read (r.loadPlugin id).registry index step =
      Engine.classFor .read r index step := by
  have hloader := loader_loadPlugin r id
  rcases loadPlugin_cases r id with heq | ⟨c, rfl, -, hresult, heq⟩
  · rw [heq]
  rw [heq] at hloader ⊢
  have hclasses := classes_insert_of_get? h
  have hload : (CodecSource.load (r.insert c) step).result = (CodecSource.load r step).result :=
    result_loadPlugin hloader step.id
  have hcodec : CodecSource.codec (r.insert c) index step =
      (CodecSource.codec r index step).or (if c.id = step.id then some c else none) := by
    show (r.insert c).get? step.id = (r.get? step.id).or _
    rw [get?, hclasses, List.find?_append]
    simp [get?]
  unfold Engine.classFor
  rw [hload, hcodec]
  by_cases hid : c.id = step.id
  · -- the step for whose number it was loaded
    have hnone : CodecSource.codec r index step = none := by
      rw [hid] at h
      exact h
    have hfound : (CodecSource.load r step).result = .ok (some c) := by
      rw [hid] at hresult
      exact hresult
    rw [hnone, hfound, if_pos hid]
    rfl
  · rw [if_neg hid, Option.or_none]

/-- With the built-in filters in the first places, steps with their numbers get no other classes. -/
theorem mem_builtin_of_uses [Compression] (h : Builtin.classes <+: r.classes)
    {direction : Engine.Direction} {pipeline : FilterPipeline}
    (hids : ∀ step ∈ pipeline.steps, (Builtin.find? step.id).isSome = true)
    (hc : Engine.Uses direction pipeline r c) : c ∈ Builtin.classes := by
  obtain ⟨s, index, step, hs, hstep, hclass⟩ := hc
  obtain ⟨others, hothers⟩ := h.trans (grows_of_fills hs).appends
  obtain ⟨found, hfound⟩ :=
    Option.isSome_iff_exists.1 (hids step (List.mem_of_getElem? hstep))
  have hget : CodecSource.codec s index step = some found := by
    show s.get? step.id = some found
    rw [get?, ← hothers, List.find?_append]
    rw [Builtin.find?] at hfound
    rw [hfound]
    rfl
  simp only [Engine.classFor, hget, Option.some.injEq] at hclass
  subst hclass
  exact List.mem_of_find?_eq_some hfound

end FilterRegistry

end FilteredChunks
