import FilteredChunks.FileTree
import Mathlib.Tactic.Common

/-!
# Files stay where they are

Putting a file at a place where no directory is leaves every directory a directory
(`isDirectory_put`), so that a path leads to the same place as before (`walk_put`).  A file that was
written and can be made to last (`HoldsFile`) can therefore be written again, and is read back.
-/

namespace FilteredChunks

namespace FileNode

/-- The node is a directory. -/
def IsDirectory : FileNode → Prop
  | directory _ => True
  | _ => False

theorem entries_of_not_isDirectory {node : FileNode} (h : ¬ node.IsDirectory) : node.entries = [] := by
  cases node with
  | directory entries => exact absurd trivial h
  | file content => rfl
  | library library => rfl
  | device content full => rfl

theorem isDirectory_put_cons (node new : FileNode) (name : String) (place : Place) :
    (node.put (name :: place) new).IsDirectory := trivial

theorem lookup_setEntry_of_ne {name other : String} (h : other ≠ name) (node : FileNode)
    (entries : List (String × FileNode)) :
    (setEntry name node entries).lookup other = entries.lookup other := by
  have hne : (other == name) = false := beq_eq_false_iff_ne.2 h
  induction entries with
  | nil => simp only [setEntry, List.lookup_cons, hne, List.lookup_nil]
  | cons entry rest ih =>
    obtain ⟨name', node'⟩ := entry
    simp only [setEntry]
    split
    · next heq =>
      obtain rfl : name = name' := by simpa using heq
      simp only [List.lookup_cons, hne]
    · simp only [List.lookup_cons, ih]

theorem at?_cons_eq_some {node found : FileNode} {name : String} {place : Place}
    (h : node.at? (name :: place) = some found) :
    ∃ below, node.entries.lookup name = some below ∧ below.at? place = some found := by
  rw [at?] at h
  cases hlookup : node.entries.lookup name with
  | none => rw [hlookup] at h; cases h
  | some below =>
    rw [hlookup] at h
    exact ⟨below, rfl, h⟩

/-- **What is put where no directory is leaves the directories there are.** -/
theorem isDirectory_put {node new dir : FileNode} {place other : Place}
    (hplace : ∀ old, node.at? place = some old → ¬ old.IsDirectory)
    (hother : node.at? other = some dir) (hdir : dir.IsDirectory) :
    ∃ dir', (node.put place new).at? other = some dir' ∧ dir'.IsDirectory := by
  induction place generalizing node other with
  | nil =>
    -- below what is no directory there is nothing
    have hnode : ¬ node.IsDirectory := hplace node rfl
    cases other with
    | nil =>
      cases hother
      exact absurd hdir hnode
    | cons name other =>
      obtain ⟨below, hlookup, -⟩ := at?_cons_eq_some hother
      rw [entries_of_not_isDirectory hnode] at hlookup
      cases hlookup
  | cons name place ih =>
    cases other with
    | nil => exact ⟨_, rfl, isDirectory_put_cons node new name place⟩
    | cons name' other =>
      obtain ⟨below, hlookup, hbelow⟩ := at?_cons_eq_some hother
      by_cases hname : name' = name
      · subst hname
        have hplace' : ∀ old, below.at? place = some old → ¬ old.IsDirectory := by
          intro old hold
          refine hplace old ?_
          rw [at?, hlookup]
          exact hold
        obtain ⟨dir', hdir', hisdir⟩ := ih hplace' hbelow
        refine ⟨dir', ?_, hisdir⟩
        have hput : (node.put (name' :: place) new).entries.lookup name' =
            some (below.put place new) := by
          rw [put, hlookup]
          exact lookup_setEntry _ _ _
        rw [at?, hput]
        exact hdir'
      · refine ⟨dir, ?_, hdir⟩
        have hput : (node.put (name :: place) new).entries.lookup name' = some below :=
          (lookup_setEntry_of_ne hname _ _).trans hlookup
        rw [at?, hput]
        exact hbelow

end FileNode

namespace FileTree

variable {t : FileTree} {path : String} {content : Bytes}

/-- At a place there is no directory, and perhaps nothing. -/
def NoDirectory (t : FileTree) (place : Place) : Prop :=
  ∀ node, t.node? place = some node → ¬ node.IsDirectory

/-- **A path leads to the same place** after something was put where no directory is. -/
theorem walk_put {place start target : Place} {parts : List String} (hplace : t.NoDirectory place)
    (node : FileNode) (h : t.walk start parts = .ok target) :
    (t.put place node).walk start parts = .ok target := by
  induction parts generalizing start with
  | nil => exact h
  | cons part parts ih =>
    rw [walk] at h ⊢
    split at h
    · cases h
    · next entries hnode =>
      split at h
      · cases h
      next hname =>
      obtain ⟨dir, hdir, hisdir⟩ : ∃ dir, (t.put place node).node? start = some dir ∧
          dir.IsDirectory := FileNode.isDirectory_put hplace hnode trivial
      rw [hdir]
      cases dir with
      | directory entries' =>
        dsimp only
        rw [if_neg hname]
        exact ih h
      | file content => cases hisdir
      | library library => cases hisdir
      | device content full => cases hisdir
    · cases h

theorem locate_put {place target : Place} (hplace : t.NoDirectory place) (node : FileNode)
    (h : t.locate path = .ok target) : (t.put place node).locate path = .ok target := by
  rw [locate, walkPath] at h ⊢
  split at h
  · cases h
  · next hlength =>
    rw [if_neg hlength]
    exact walk_put hplace node h

/-- A path is that of a file with these bytes. -/
structure HoldsFile (t : FileTree) (path : String) (content : Bytes) : Prop where
  no_slash : PathName.endsInSlash path = false
  located : ∃ place, t.locate path = .ok place ∧ t.node? place = some (.file content)

theorem HoldsFile.read (h : t.HoldsFile path content) : t.read path = .ok content := by
  obtain ⟨place, hplace, hnode⟩ := h.located
  rw [FileTree.read, hplace]
  dsimp only
  rw [hnode]
  dsimp only
  rw [h.no_slash]
  rfl

theorem HoldsFile.sync (h : t.HoldsFile path content) : t.sync path = .ok () := by
  obtain ⟨place, hplace, hnode⟩ := h.located
  rw [FileTree.sync, hplace]
  dsimp only
  rw [hnode]

theorem holdsFile_put {place : Place} (hslash : PathName.endsInSlash path = false)
    (hlocate : t.locate path = .ok place) (hplace : t.NoDirectory place) (content : Bytes) :
    (t.put place (.file content)).HoldsFile path content :=
  ⟨hslash, place, locate_put hplace _ hlocate, FileNode.at?_put _ _ _⟩

theorem HoldsFile.write (h : t.HoldsFile path content) (content' : Bytes) :
    ∃ t', t.write path content' = .ok t' ∧ t'.HoldsFile path content' := by
  obtain ⟨place, hplace, hnode⟩ := h.located
  have hno : t.NoDirectory place := by
    intro node hnode'
    rw [hnode] at hnode'
    cases hnode'
    exact id
  refine ⟨_, ?_, holdsFile_put h.no_slash hplace hno content'⟩
  rw [FileTree.write, h.no_slash, if_neg Bool.false_ne_true, hplace]
  dsimp only
  rw [hnode]

theorem holdsFile_of_write {t' : FileTree} (h : t.write path content = .ok t')
    (hsync : t'.sync path = .ok ()) : t'.HoldsFile path content := by
  unfold write at h
  split at h
  · split at h <;> cases h
  next hslash =>
  rw [Bool.not_eq_true] at hslash
  split at h
  · cases h
  next place hlocate =>
  split at h
  · cases h
  · next content' full hnode =>
    -- a device cannot be made to last
    split at h
    · cases h
    · cases h
      rw [sync, hlocate] at hsync
      dsimp only at hsync
      rw [hnode] at hsync
      cases hsync
  · next hnot hnode =>
    cases h
    refine holdsFile_put hslash hlocate (fun node hsome => ?_) content
    cases node with
    | directory entries => exact absurd hsome (hnot entries)
    | file content => exact id
    | library library => exact id
    | device content full => exact id

end FileTree

end FilteredChunks
