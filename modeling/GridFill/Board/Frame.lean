/-
# `GridFill.Board.Frame` — where the cells of a board are

A frame fixes the width and height of a board and the coordinates of its cells,
in board order.  A cell is known by its place in that order.  The coordinates
may lie off the board and may repeat; where several cells share one, the last
of them is the one found there.

Looking a cell up by its coordinates is what the rule sets do all day, so a
frame carries a table of the cells at the coordinates on the board and of the
cells of every row and column.  The table is a function of the rest of the
frame (`index_eq`), and `Frame.cellAt?` and the two line functions are the only
readers of it.
-/
import GridFill.Fault

namespace GridFill

/-- The coordinates of a cell: `x` counts columns and `y` rows. -/
structure Site where
  x : Int
  y : Int
deriving DecidableEq, Inhabited

namespace Site

/-- The row-major place of a site on a `width` by `height` board, if it lies on it. -/
def place? (width height : Nat) (s : Site) : Option Nat :=
  if 0 ≤ s.x ∧ s.x < width ∧ 0 ≤ s.y ∧ s.y < height then
    some (s.y.toNat * width + s.x.toNat)
  else none

end Site

/-- The greatest number below a bound that passes a test. -/
def lastBelow (p : Nat → Bool) : Nat → Option Nat
  | 0 => none
  | n + 1 => if p n then some n else lastBelow p n

/-! ## The table of a frame -/

/-- The cells at the coordinates on the board, by row-major place, and the
cells of every row and column that lie on the board. -/
structure SiteIndex where
  grid : Array (Option Nat)
  rows : Array (List Nat)
  cols : Array (List Nat)

namespace SiteIndex

/-- Notes every cell at its place; later cells overwrite earlier ones. -/
def gridOf (width height : Nat) (sites : Array Site) : Array (Option Nat) :=
  sites.toList.zipIdx.foldl
    (fun grid s =>
      match s.1.place? width height with
      | some p => grid.setIfInBounds p (some s.2)
      | none => grid)
    (Array.replicate (width * height) none)

/-- The table of the given sites. -/
def build (width height : Nat) (sites : Array Site) : SiteIndex :=
  let grid := gridOf width height sites
  let at? := fun x y => (grid[y * width + x]?).join
  { grid := grid
    rows := Array.ofFn fun y : Fin height => (List.range width).filterMap fun x => at? x y
    cols := Array.ofFn fun x : Fin width => (List.range height).filterMap fun y => at? x y }

end SiteIndex

/-! ## Frames -/

/-- The width, height and cell coordinates of a board, with their table. -/
structure Frame where
  width : Nat
  height : Nat
  sites : Array Site
  width_pos : 0 < width
  height_pos : 0 < height
  sites_size : sites.size = width * height
  index : SiteIndex := SiteIndex.build width height sites
  index_eq : index = SiteIndex.build width height sites := by rfl

namespace Frame

/-- The number of cells. -/
def size (f : Frame) : Nat := f.sites.size

/-- The coordinates of a cell. -/
def site (f : Frame) (i : Nat) : Site := f.sites.getD i ⟨0, 0⟩

/-- The last of the cells with the given coordinates. -/
def cellAt? (f : Frame) (x y : Int) : Option Nat :=
  match Site.place? f.width f.height ⟨x, y⟩ with
  | some p => (f.index.grid[p]?).join
  | none => lastBelow (fun i => f.site i = ⟨x, y⟩) f.size

/-- The cells of a row, from left to right. -/
def row (f : Frame) (y : Int) : List Nat :=
  if 0 ≤ y ∧ y < f.height then f.index.rows.getD y.toNat []
  else (List.range f.width).filterMap fun (x : Nat) => f.cellAt? x y

/-- The cells of a column, from top to bottom. -/
def col (f : Frame) (x : Int) : List Nat :=
  if 0 ≤ x ∧ x < f.width then f.index.cols.getD x.toNat []
  else (List.range f.height).filterMap fun (y : Nat) => f.cellAt? x y

/-- The coordinates of a full rectangle, row by row. -/
def rectangleSites (width height : Nat) : Array Site :=
  Array.ofFn fun i : Fin (width * height) => ⟨(i.val % width : Nat), (i.val / width : Nat)⟩

/-- The frame of a full rectangle. -/
def rectangle (width height : Nat) (hw : 0 < width) (hh : 0 < height) : Frame where
  width := width
  height := height
  sites := rectangleSites width height
  width_pos := hw
  height_pos := hh
  sites_size := by simp [rectangleSites]

/-- The frame of a full rectangle, if its dimensions are positive. -/
def ofDimensions (width height : Int) : Except Fault Frame :=
  if h : 0 < width.toNat ∧ 0 < height.toNat then
    .ok (.rectangle width.toNat height.toNat h.1 h.2)
  else .error (.dimensions width height)

/-- The frame with the given sites, if the dimensions are positive and the
number of sites is their product. -/
def ofSites (width height : Int) (sites : Array Site) : Except Fault Frame :=
  if h : 0 < width.toNat ∧ 0 < height.toNat then
    if hs : sites.size = width.toNat * height.toNat then
      .ok { width := width.toNat, height := height.toNat, sites := sites,
            width_pos := h.1, height_pos := h.2, sites_size := hs }
    else
      .error (.cellCount (width.toNat * height.toNat) width.toNat height.toNat sites.size)
  else .error (.dimensions width height)

end Frame

end GridFill
