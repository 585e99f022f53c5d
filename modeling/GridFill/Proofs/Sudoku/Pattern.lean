/-
# `GridFill.Proofs.Sudoku.Pattern` — every sudoku has a solution

Let the boxes be `bw` wide and `bh` high, and `n = bw * bh`.  Write the numbers
from `1` to `n` into the first row, and into every other row the same sequence,
begun later: by `bw` places for each row above it in its row of boxes, and by one
place for each row of boxes above (`shift`).  In a column all numbers differ
because the shifts of the rows do (`shift_inj`), and in a box the place of a cell
is told by its number (`patternAt_box`).

So an empty board with these boxes has an extension under the sudoku rules
(`isExtension_pattern`).
-/
import Mathlib.Data.Nat.ModEq
import GridFill.Proofs.Rules.Givens

namespace GridFill

/-! ## The numbers of the pattern

The numbers of a row are a rotation of the first row, and no two rows are rotated
alike. -/

/-- By how many places the row `y` is shifted. -/
def shift (bw bh y : Nat) : Nat := y / bh + y % bh * bw

/-- The number in column `x` of row `y`. -/
def patternAt (bw bh x y : Nat) : Nat := (shift bw bh y + x) % (bw * bh) + 1

section

variable {bw bh a x x' y y' : Nat}

theorem eq_of_add_mod_eq {n : Nat} (hx : x < n) (hx' : x' < n)
    (h : (a + x) % n = (a + x') % n) : x = x' :=
  (Nat.ModEq.add_left_cancel' a h).eq_of_lt_of_lt hx hx'

theorem patternAt_bounds (hn : 0 < bw * bh) :
    1 ≤ patternAt bw bh x y ∧ patternAt bw bh x y ≤ bw * bh :=
  ⟨Nat.succ_le_succ (Nat.zero_le _), Nat.succ_le_of_lt (Nat.mod_lt _ hn)⟩

theorem shift_lt (hbh : 0 < bh) (hy : y < bw * bh) : shift bw bh y < bw * bh := by
  rw [Nat.mul_comm]
  exact add_mul_lt (Nat.div_lt_of_lt_mul (Nat.mul_comm bw bh ▸ hy)) (Nat.mod_lt _ hbh)

theorem shift_inj (hy : y < bw * bh) (hy' : y' < bw * bh) (h : shift bw bh y = shift bw bh y') :
    y = y' := by
  have hlt {z : Nat} (hz : z < bw * bh) : z / bh < bw :=
    Nat.div_lt_of_lt_mul (Nat.mul_comm bw bh ▸ hz)
  obtain ⟨hdiv, hmod⟩ := (add_mul_inj (hlt hy) (hlt hy')).mp h
  rw [← Nat.mod_add_div y bh, hmod, hdiv, Nat.mod_add_div]

theorem patternAt_row (hx : x < bw * bh) (hx' : x' < bw * bh)
    (h : patternAt bw bh x y = patternAt bw bh x' y) : x = x' :=
  eq_of_add_mod_eq hx hx' (Nat.succ.inj h)

theorem patternAt_col (hbh : 0 < bh) (hy : y < bw * bh) (hy' : y' < bw * bh)
    (h : patternAt bw bh x y = patternAt bw bh x y') : y = y' := by
  have hsum := Nat.succ.inj h
  rw [Nat.add_comm _ x, Nat.add_comm _ x] at hsum
  exact shift_inj hy hy' (eq_of_add_mod_eq (shift_lt hbh hy) (shift_lt hbh hy') hsum)

/-- In a box, the column and row of a cell are told by its number. -/
theorem patternAt_box (hbw : 0 < bw) (hbh : 0 < bh) (hx : x / bw = x' / bw)
    (hy : y / bh = y' / bh) (h : patternAt bw bh x y = patternAt bw bh x' y') :
    x = x' ∧ y = y' := by
  have hsplit (u v : Nat) :
      shift bw bh v + u = (v / bh + u / bw * bw) + (u % bw + v % bh * bw) := by
    have hu := Nat.mod_add_div' u bw
    rw [shift]
    omega
  have hplace {u v : Nat} : u % bw + v % bh * bw < bw * bh := by
    rw [Nat.mul_comm bw bh]
    exact add_mul_lt (Nat.mod_lt _ hbw) (Nat.mod_lt _ hbh)
  have hsum := Nat.succ.inj h
  rw [hsplit x y, hsplit x' y', hx, hy] at hsum
  obtain ⟨hxm, hym⟩ := (add_mul_inj (Nat.mod_lt _ hbw) (Nat.mod_lt _ hbw)).mp
    (eq_of_add_mod_eq hplace hplace hsum)
  constructor
  · rw [← Nat.mod_add_div x bw, hxm, hx, Nat.mod_add_div]
  · rw [← Nat.mod_add_div y bh, hym, hy, Nat.mod_add_div]

end

/-! ## The pattern as a board

All cells are empty, so the pattern may fill them all. -/

namespace Board

variable {b : Board} {bw bh : Nat}

/-- The number of the pattern in a cell. -/
def patternValue (b : Board) (bw bh i : Nat) : Int :=
  (patternAt bw bh (i % b.width) (i / b.width) : Nat)

/-- The empty cells of a board filled with the numbers of the pattern. -/
def pattern (b : Board) (bw bh : Nat) : Board :=
  b.place b.emptyCells (b.emptyCells.map (b.patternValue bw bh))

theorem filledWith_pattern (b : Board) (bw bh : Nat) :
    b.FilledWith (b.emptyCells.map (b.patternValue bw bh)) (b.pattern bw bh) :=
  filledWith_place (List.length_map _)

theorem value_pattern {i : Nat} (hi : i ∈ b.emptyCells) :
    (b.pattern bw bh).value i = some (b.patternValue bw bh i) := by
  have h := (filledWith_pattern b bw bh).filled
  rw [List.map_map] at h
  exact List.map_inj_left.mp h i hi

/-- On an empty square of such boxes the pattern is a solution. -/
theorem isExtension_pattern (hb : b.Rectangular) (hbox : b.Boxed bw bh)
    (hsquare : b.height = b.width) (harea : bw * bh = b.width) (hempty : b.emptyCells = b.cells) :
    Rules.sudoku.IsExtension b.width b (b.pattern bw bh) := by
  have hfilled := filledWith_pattern b bw bh
  have hmem {i : Nat} (hi : i < b.frame.size) : i ∈ b.emptyCells := by
    rw [hempty, cells, List.mem_range, hb.listed]
    exact hi
  have hx {i : Nat} : i % b.width < bw * bh := by
    rw [harea]
    exact Nat.mod_lt _ b.frame.width_pos
  have hy {i : Nat} (hi : i < b.frame.size) : i / b.width < bw * bh := by
    rw [hb.size_eq, hsquare] at hi
    rw [harea]
    exact Nat.div_lt_of_lt_mul hi
  have hcell {i j : Nat} (hmod : i % b.width = j % b.width) (hdiv : i / b.width = j / b.width) :
      i = j := by
    rw [← Nat.mod_add_div i b.width, hmod, hdiv, Nat.mod_add_div]
  refine ⟨hfilled.frame, hfilled.regions, hfilled.listed, hfilled.kept, fun i hi => ?_, ?_⟩
  · refine ⟨_, value_pattern hi, ?_⟩
    obtain ⟨h1, h2⟩ := patternAt_bounds (x := i % b.width) (y := i / b.width)
      (Nat.mul_pos hbox.width_pos hbox.height_pos)
    rw [harea] at h2
    exact ⟨Int.ofNat_le.mpr h1, Int.ofNat_le.mpr h2⟩
  · intro i hi j hj hne hp heq
    rw [hfilled.frame] at hj
    have hi' := lt_size_of_mem_emptyCells hi
    rw [value_pattern hi, value_pattern (hmem hj), Option.some.injEq, patternValue, patternValue,
      Int.natCast_inj] at heq
    rw [Rules.peers_congr hfilled.frame hfilled.regions] at hp
    refine hne (Eq.symm ?_)
    rcases hp with hrow | hcol | hregion
    · rw [Rules.SameRow, hb.site_eq hi', hb.site_eq hj, Int.natCast_inj] at hrow
      rw [hrow] at heq
      exact hcell (patternAt_row hx hx heq) hrow
    · rw [Rules.SameCol, hb.site_eq hi', hb.site_eq hj, Int.natCast_inj] at hcol
      rw [hcol] at heq
      exact hcell hcol (patternAt_col hbox.height_pos (hy hi') (hy hj) heq)
    · obtain ⟨hxbox, hybox⟩ := (hbox.sameRegion_iff hi' hj).mp hregion
      obtain ⟨hmod, hdiv⟩ := patternAt_box hbox.width_pos hbox.height_pos hxbox hybox heq
      exact hcell hmod hdiv

end Board

end GridFill
