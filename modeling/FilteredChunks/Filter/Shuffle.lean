import FilteredChunks.FilterClass

/-!
# The shuffle filter

Elements of `s` bytes are written as `s` rows: the first bytes of all elements, then the second bytes,
and so on.  This is the transposition of a table with one row per element; the transposition of the
result gives the elements back.  Bytes after the last whole element stay where they are.
-/

namespace FilteredChunks.Shuffle

/-- The transposition of a table of `rows` rows of `cols` bytes, given and returned row by row, if all
its cells are there. -/
def transpose? (rows cols : Nat) (table : Bytes) : Option Bytes :=
  let cells := table.toArray
  (List.range (rows * cols)).mapM fun p => cells[(p % rows) * cols + p / rows]?

/-- Shuffles by the element size in the first client word, or undoes it.  With elements of one byte,
or fewer than two elements, there is nothing to do.  A cell that is not there would be a crash. -/
def transform (flags : FilterFlags) (words : List UInt32) (nbytes : Nat) (data : Bytes) : Reply :=
  match words with
  | [] => .produced 0 data
  | word :: _ =>
    let size := word.toNat
    let n := min nbytes data.length
    let elements := n / size
    if size ≤ 1 ∨ elements ≤ 1 then .produced n data
    else
      let input := data.take n
      let shuffled? :=
        if flags.contains .reverse then transpose? size elements input
        else transpose? elements size input
      match shuffled?, Bytes.slice? input (elements * size) n with
      | some shuffled, some rest => .produced n (shuffled ++ rest)
      | _, _ => .crashed

/-- Takes the element size from the datatype. -/
def setLocal (_ : FilterStep) (target : Target) : Tuning :=
  match target.datatype with
  | none => ⟨none, .error "shuffle needs a datatype to pick the element size"⟩
  | some datatype =>
    if datatype.size < UInt32.size then ⟨some [UInt32.ofNat datatype.size], .ok ()⟩
    else ⟨none, .error s!"element size {datatype.size} too large"⟩

def codec : Codec where
  transform := transform
  canApply _ := .ok true
  setLocal := setLocal

def filterClass : FilterClass := .ofCodec .shuffle "shuffle" codec (.builtin .shuffle)

/-! ### Lemmas -/

/-- The cell in row `i` and column `b` is one of the table. -/
theorem cell_lt {rows cols i b : Nat} (hi : i < rows) (hb : b < cols) :
    i * cols + b < rows * cols :=
  calc i * cols + b < (i + 1) * cols := by rw [Nat.add_mul, Nat.one_mul]; omega
    _ ≤ rows * cols := Nat.mul_le_mul_right _ hi

/-- If every cell is read, the list of them is. -/
theorem mapM_eq_some {α β : Type} {f : α → Option β} {g : α → β} {xs : List α}
    (h : ∀ x ∈ xs, f x = some (g x)) : xs.mapM f = some (xs.map g) := by
  induction xs with
  | nil => rfl
  | cons x xs ih =>
    rw [List.mapM_cons, h x List.mem_cons_self, ih fun y hy => h y (List.mem_cons_of_mem x hy)]
    rfl

/-- No cell of a table that is long enough is missed, and byte `b` of row `i` goes to position
`b * rows + i`. -/
theorem transpose?_of_le {rows cols : Nat} {table : Bytes} (h : rows * cols ≤ table.length) :
    ∃ turned, transpose? rows cols table = some turned ∧ turned.length = rows * cols ∧
      ∀ i < rows, ∀ b < cols, turned[b * rows + i]? = table[i * cols + b]? := by
  have hread : ∀ p ∈ List.range (rows * cols), table.toArray[(p % rows) * cols + p / rows]? =
      some (table.getD ((p % rows) * cols + p / rows) 0) := by
    intro p hp
    have hp := List.mem_range.1 hp
    have hrows : 0 < rows := by
      rcases Nat.eq_zero_or_pos rows with rfl | hpos
      · simp at hp
      · exact hpos
    have hcell : (p % rows) * cols + p / rows < rows * cols :=
      cell_lt (Nat.mod_lt p hrows) (Nat.div_lt_of_lt_mul hp)
    rw [List.getElem?_toArray, List.getD_eq_getElem?_getD,
      List.getElem?_eq_getElem (Nat.lt_of_lt_of_le hcell h)]
    rfl
  refine ⟨_, mapM_eq_some hread, by simp, fun i hi b hb => ?_⟩
  have hp : b * rows + i < rows * cols := Nat.mul_comm rows cols ▸ cell_lt hb hi
  have hmod : (b * rows + i) % rows = i := by
    rw [Nat.mul_comm, Nat.mul_add_mod, Nat.mod_eq_of_lt hi]
  have hdiv : (b * rows + i) / rows = b := by
    rw [Nat.mul_comm, Nat.mul_add_div (by omega), Nat.div_eq_of_lt hi, Nat.add_zero]
  rw [List.getElem?_map, List.getElem?_range hp, Option.map_some, hmod, hdiv,
    List.getD_eq_getElem?_getD, List.getElem?_eq_getElem (Nat.lt_of_lt_of_le (cell_lt hi hb) h)]
  rfl

end FilteredChunks.Shuffle
