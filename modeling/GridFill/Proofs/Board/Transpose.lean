/-
# `GridFill.Proofs.Board.Transpose` — boards turned over and boards in other values

Turning a full rectangle over exchanges its rows and columns: the cell at (`x`, `y`) goes
to (`y`, `x`) and takes its value and its region with it (`Board.transpose`).  In board
order it is then found at another place (`turned`), and turning the board back undoes that
(`turned_turned`).  The other change is one of the values alone (`Board.relabel`).
-/
import GridFill.Proofs.Board.Empty
import GridFill.Proofs.Board.Index

namespace GridFill.Board

/-! ## Places

A place is a row and a column in one number.  Turning the board over exchanges the
two, and doing it twice changes nothing. -/

/-- Where the cell at row-major place `i` goes when a board of so many columns and rows is
turned over. -/
def turned (width height i : Nat) : Nat := i % width * height + i / width

section

variable {width height i : Nat} (hi : i < width * height)

include hi

theorem turned_mod : turned width height i % height = i / width := by
  rw [turned, Nat.mul_comm, Nat.mul_add_mod, Nat.mod_eq_of_lt (Nat.div_lt_of_lt_mul hi)]

theorem turned_div : turned width height i / height = i % width := by
  have hlt : i / width < height := Nat.div_lt_of_lt_mul hi
  rw [turned, Nat.mul_comm, Nat.mul_add_div (Nat.zero_lt_of_lt hlt), Nat.div_eq_of_lt hlt,
    Nat.add_zero]

theorem turned_lt : turned width height i < height * width := by
  have hlt : i / width < height := Nat.div_lt_of_lt_mul hi
  have hwidth : 0 < width := Nat.pos_of_ne_zero fun h => by simp [h] at hi
  have hrow : (i % width + 1) * height ≤ width * height :=
    Nat.mul_le_mul_right height (Nat.mod_lt i hwidth)
  rw [Nat.succ_mul, Nat.mul_comm width] at hrow
  rw [turned]
  omega

theorem turned_turned : turned height width (turned width height i) = i := by
  rw [turned, turned_mod hi, turned_div hi, Nat.mul_comm, Nat.div_add_mod]

end

/-! ## The same cells with other values

The frame, the regions and the number of listed cells stay as they are. -/

variable {b b' : Board} {i j : Nat}

/-- The board with the same cells and regions and with the given values. -/
def withValues (b : Board) (value : Nat → Option Int) : Board where
  frame := b.frame
  values := Array.ofFn fun i : Fin b.frame.size => value i
  regions := b.regions
  listed := b.listed
  values_size := by simp
  regions_size := b.regions_size
  listed_le := b.listed_le

@[simp] theorem withValues_frame (value : Nat → Option Int) :
    (b.withValues value).frame = b.frame := rfl

theorem value_withValues (value : Nat → Option Int) (hi : i < b.frame.size) :
    (b.withValues value).value i = value i := by
  simp [Board.value, withValues, hi]

/-- The board with every value replaced by another one. -/
def relabel (p : Int → Int) (b : Board) : Board := b.withValues fun i => (b.value i).map p

theorem value_relabel (p : Int → Int) (hi : i < b.frame.size) :
    (b.relabel p).value i = (b.value i).map p :=
  value_withValues _ hi

/-! ## Turning a board over

At a turned place the other board shows what this one shows at the place itself. -/

/-- The board on which (`x`, `y`) shows what this one shows at (`y`, `x`). -/
def transpose (b : Board) : Board :=
  let f := Frame.rectangle b.height b.width b.frame.height_pos b.frame.width_pos
  let source := fun k => b.frame.cellAt? (f.site k).y (f.site k).x
  { frame := f
    values := Array.ofFn fun k : Fin f.size => (source k).bind b.value
    regions := Array.ofFn fun k : Fin f.size => (source k).bind b.region
    listed := f.size
    values_size := by simp
    regions_size := by simp
    listed_le := Nat.le_refl _ }

theorem rectangular_transpose (b : Board) : b.transpose.Rectangular := ⟨rfl, rfl⟩

theorem size_transpose (b : Board) : b.transpose.frame.size = b.height * b.width :=
  b.rectangular_transpose.size_eq

theorem value_transpose (hi : i < b.transpose.frame.size) : b.transpose.value i =
    (b.frame.cellAt? (b.transpose.frame.site i).y (b.transpose.frame.site i).x).bind b.value := by
  have hlt : i < b.transpose.values.size := by rwa [b.transpose.values_size]
  simp only [Board.value, Array.getD_eq_getD_getElem?, Array.getElem?_eq_getElem hlt]
  simp [transpose]

theorem region_transpose (hi : i < b.transpose.frame.size) : b.transpose.region i =
    (b.frame.cellAt? (b.transpose.frame.site i).y (b.transpose.frame.site i).x).bind b.region := by
  have hlt : i < b.transpose.regions.size := by rwa [b.transpose.regions_size]
  simp only [Board.region, Array.getD_eq_getD_getElem?, Array.getElem?_eq_getElem hlt]
  simp [transpose]

section

variable (hb : b.Rectangular) (hi : i < b.frame.size)

include hb hi

theorem turned_lt_size : turned b.width b.height i < b.transpose.frame.size := by
  rw [hb.size_eq] at hi
  rw [size_transpose]
  exact turned_lt hi

theorem site_turned : b.transpose.frame.site (turned b.width b.height i) =
    ⟨(b.frame.site i).y, (b.frame.site i).x⟩ := by
  have hplace := hi
  rw [hb.size_eq] at hplace
  rw [b.rectangular_transpose.site_eq (turned_lt_size hb hi), hb.site_eq hi]
  show Site.mk (turned b.width b.height i % b.height : Nat)
    (turned b.width b.height i / b.height : Nat) = _
  rw [turned_mod hplace, turned_div hplace]

theorem cellAt?_site_turned :
    b.frame.cellAt? (b.transpose.frame.site (turned b.width b.height i)).y
      (b.transpose.frame.site (turned b.width b.height i)).x = some i := by
  rw [site_turned hb hi]
  exact hb.cellAt?_eq_some.mpr ⟨hi, rfl⟩

theorem value_turned : b.transpose.value (turned b.width b.height i) = b.value i := by
  rw [value_transpose (turned_lt_size hb hi), cellAt?_site_turned hb hi, Option.bind_some]

theorem region_turned : b.transpose.region (turned b.width b.height i) = b.region i := by
  rw [region_transpose (turned_lt_size hb hi), cellAt?_site_turned hb hi, Option.bind_some]

/-- A cell keeps its value and its region and exchanges its coordinates. -/
theorem cell_turned : b.transpose.cell (turned b.width b.height i) =
    { b.cell i with x := (b.cell i).y, y := (b.cell i).x } := by
  simp only [cell, site_turned hb hi, value_turned hb hi, region_turned hb hi]

end

end GridFill.Board
