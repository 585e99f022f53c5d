/-
# `GridFill.Proofs.Board.Empty` — the empty cells of a board, and writing into them

A search reads a board through `value` and `emptyCells` and changes it with
`put`.  The lemmas here say what `put` does to the other two, so that nothing
after them opens the array of values.

The one that carries every search is `emptyCells_put`: filling the first empty
cell removes it from the list of empty cells and leaves the rest of the list as
it was.  With `findEmpty_eq_head?` it says that going down that list is the
same as looking for the first empty cell again and again.
-/
import GridFill.Board.Basic

namespace GridFill.Board

variable {b b' : Board} {i j : Nat} {v : Option Int}

/-! ## Writing a cell

Only the value of that cell changes.  Writing back what was there before undoes it,
which is how a search and a carving take their values back. -/

@[simp] theorem put_frame : (b.put i v).frame = b.frame := rfl

@[simp] theorem put_listed : (b.put i v).listed = b.listed := rfl

@[simp] theorem put_regions : (b.put i v).regions = b.regions := rfl

@[simp] theorem put_region : (b.put i v).region j = b.region j := rfl

@[simp] theorem value_blank (f : Frame) (i : Nat) : (blank f).value i = none := by
  by_cases hi : i < f.size <;> simp [value, blank, hi]

theorem region_congr (h : b'.regions = b.regions) (j : Nat) : b'.region j = b.region j := by
  rw [region, h, region]

theorem value_put_self (h : i < b.frame.size) : (b.put i v).value i = v := by
  have hi : i < b.values.size := by rw [b.values_size]; exact h
  simp [value, put, hi]

theorem value_put_of_ne (h : j ≠ i) : (b.put i v).value j = b.value j := by
  simp [value, put, Array.getElem?_setIfInBounds_ne h.symm]

theorem ext_value (hf : b.frame = b'.frame) (hr : b.regions = b'.regions)
    (hl : b.listed = b'.listed) (hv : ∀ i, b.value i = b'.value i) : b = b' := by
  have hsize : b.values.size = b'.values.size := by
    rw [b.values_size, b'.values_size, hf]
  have hvalues : b.values = b'.values := by
    refine Array.ext hsize fun i h h' => ?_
    have := hv i
    simpa [value, h, h'] using this
  cases b
  cases b'
  simp_all

theorem put_put (u : Option Int) : (b.put i u).put i v = b.put i v := by
  simp [put]

theorem value_of_size_le (h : b.frame.size ≤ i) : b.value i = none := by
  have hout : b.values.size ≤ i := by rw [b.values_size]; exact h
  simp [value, hout]

theorem lt_size_of_value_eq_some {u : Int} (h : b.value i = some u) : i < b.frame.size := by
  refine Nat.lt_of_not_le fun hle => ?_
  rw [value_of_size_le hle] at h
  cases h

theorem value_put_none_self : (b.put i none).value i = none := by
  by_cases hi : i < b.frame.size
  · exact value_put_self hi
  · exact value_of_size_le (Nat.le_of_not_lt hi)

theorem put_value : b.put i (b.value i) = b := by
  refine ext_value rfl rfl rfl fun j => ?_
  by_cases hj : j = i
  · subst hj
    by_cases hlt : j < b.frame.size
    · exact value_put_self hlt
    · have hout := Nat.le_of_not_lt hlt
      rw [value_of_size_le hout]
      exact value_of_size_le hout
  · exact value_put_of_ne hj

theorem put_none_of_empty (h : b.value i = none) : b.put i none = b := by
  calc b.put i none = b.put i (b.value i) := by rw [h]
    _ = b := put_value

theorem put_none_put_value : (b.put i none).put i (b.value i) = b := by
  rw [put_put, put_value]

theorem put_some_put_none (h : b.value i = none) : (b.put i v).put i none = b := by
  rw [put_put, put_none_of_empty h]

/-! ## The empty cells

They are listed in board order, so the cell that `findEmpty` finds is the head of
the list. -/

theorem mem_emptyCells : i ∈ b.emptyCells ↔ i < b.listed ∧ b.value i = none := by
  simp [emptyCells, cells]

theorem nodup_emptyCells (b : Board) : b.emptyCells.Nodup :=
  List.nodup_range.filter _

theorem emptyCells_of_value_eq_none (h : ∀ i, b.value i = none) : b.emptyCells = b.cells := by
  simp [emptyCells, h]

theorem length_emptyCells_le (b : Board) : b.emptyCells.length ≤ b.listed :=
  calc b.emptyCells.length ≤ b.cells.length := List.length_filter_le _ _
    _ = b.listed := List.length_range

theorem lt_size_of_mem_emptyCells (h : i ∈ b.emptyCells) : i < b.frame.size :=
  Nat.lt_of_lt_of_le (mem_emptyCells.mp h).1 b.listed_le

theorem isComplete_iff_emptyCells : b.isComplete = true ↔ b.emptyCells = [] := by
  simp [isComplete, emptyCells, List.filter_eq_nil_iff]

/-- Looking for an empty cell finds the first one of the list. -/
theorem findEmpty_eq_head? (b : Board) : b.findEmpty = b.emptyCells.head? := by
  simp [findEmpty, emptyCells, List.head?_filter]

section First

variable {cells : List Nat}

theorem value_of_emptyCells_eq_cons (h : b.emptyCells = i :: cells) : b.value i = none :=
  (mem_emptyCells.mp (h ▸ List.mem_cons_self)).2

theorem lt_size_of_emptyCells_eq_cons (h : b.emptyCells = i :: cells) : i < b.frame.size :=
  lt_size_of_mem_emptyCells (h ▸ List.mem_cons_self)

theorem notMem_of_emptyCells_eq_cons (h : b.emptyCells = i :: cells) : i ∉ cells :=
  (List.nodup_cons.mp (h ▸ nodup_emptyCells b)).1

/-- Filling the first empty cell leaves the others, in the same order. -/
theorem emptyCells_put (h : b.emptyCells = i :: cells) (v : Int) :
    (b.put i (some v)).emptyCells = cells := by
  have hsplit : (b.put i (some v)).emptyCells = b.emptyCells.filter fun j => j ≠ i := by
    unfold emptyCells
    rw [List.filter_filter]
    refine List.filter_congr fun j _ => ?_
    by_cases hj : j = i
    · subst hj
      simp [value_put_self (lt_size_of_emptyCells_eq_cons h)]
    · simp [value_put_of_ne hj, hj]
  rw [hsplit, h]
  have hnot : ∀ j ∈ cells, j ≠ i := fun j hj hji =>
    notMem_of_emptyCells_eq_cons h (hji ▸ hj)
  simpa using hnot

end First

end GridFill.Board
