/-
# `GridFill.Board.Basic` — boards

A board is a frame with a value and a region for every cell; both may be
missing.  Its cells are listed in board order.  The list may be shortened, and
then the cells cut off are no longer listed but are still found by their
coordinates: `listed` says how many are left.

Every operation keeps the frame and the two sizes, so these are fields of the
type.

The neighbours of a cell are found by coordinates, one step away in each of four
directions, so a cell has fewer of them at the edge or beside a gap.
`Frame.spread` walks from cell to neighbouring cell and strikes every cell it
meets off a list of cells not yet seen.  A board is connected when the cells
struck off are as many as the cells it lists.
-/
import GridFill.Board.Frame

namespace GridFill

/-- The name of a region: a number, or a label, which never equals a number. -/
inductive Region where
  | number (n : Int)
  | label (name : String)
deriving DecidableEq

/-- One cell as seen from outside: coordinates, value and region. -/
structure Cell where
  x : Int
  y : Int
  value : Option Int := none
  region : Option Region := none
deriving DecidableEq

/-- A way to point at a cell: an index into the listed cells (a negative one
counts from the end), a pair of coordinates, or something that is neither. -/
inductive Position where
  | index (i : Int)
  | coords (x y : Int)
  | other

/-- A frame with values and regions. -/
structure Board where
  frame : Frame
  values : Array (Option Int)
  regions : Array (Option Region)
  listed : Nat
  values_size : values.size = frame.size
  regions_size : regions.size = frame.size
  listed_le : listed ≤ frame.size

namespace Board

/-! ## Construction -/

/-- The board without values and regions. -/
def blank (f : Frame) : Board where
  frame := f
  values := Array.replicate f.size none
  regions := Array.replicate f.size none
  listed := f.size
  values_size := by simp
  regions_size := by simp
  listed_le := Nat.le_refl _

/-- An empty rectangle. -/
def rectangle (width height : Int) : Except Fault Board :=
  blank <$> Frame.ofDimensions width height

/-- A board made of the given cells. -/
def ofCells (width height : Int) (cells : List Cell) : Except Fault Board :=
  match h : Frame.ofSites width height (cells.map fun c => ⟨c.x, c.y⟩).toArray with
  | .error e => .error e
  | .ok f =>
    have hf : cells.length = f.size := by
      simp only [Frame.ofSites] at h
      split at h
      · split at h
        · cases h; simp [Frame.size]
        · cases h
      · cases h
    .ok { frame := f
          values := (cells.map Cell.value).toArray
          regions := (cells.map Cell.region).toArray
          listed := f.size
          values_size := by simp [hf]
          regions_size := by simp [hf]
          listed_le := Nat.le_refl _ }

/-- A snapshot or row entry as a value: zero marks an empty cell like `none`. -/
def entry (v : Option Int) : Option Int :=
  if v = some 0 then none else v

/-- A board made of rows, in which zero or `none` marks an empty cell. -/
def ofRows (rows : List (List (Option Int))) : Except Fault Board :=
  match rows with
  | [] => .error .emptyGrid
  | first :: rest =>
    if hw : first = [] then .error .emptyGrid
    else if hr : ∀ r ∈ rest, r.length = first.length then
      let f := Frame.rectangle first.length (rest.length + 1)
        (List.length_pos_iff.2 hw) (Nat.succ_pos _)
      have hsize : ((first :: rest).flatten.map entry).toArray.size = f.size := by
        have hrest : rest.flatten.length = rest.length * first.length := by
          clear f
          induction rest with
          | nil => simp
          | cons r rs ih =>
            have h1 := hr r List.mem_cons_self
            have h2 := ih fun r' h' => hr r' (List.mem_cons_of_mem _ h')
            simp only [List.flatten_cons, List.length_append, List.length_cons, h1, h2]
            rw [Nat.succ_mul, Nat.add_comm]
        show _ = (Frame.rectangleSites first.length (rest.length + 1)).size
        simp only [List.flatten_cons, List.map_append, List.size_toArray, List.length_append,
          List.length_map, hrest, Frame.rectangleSites, Array.size_ofFn]
        rw [Nat.mul_succ, Nat.mul_comm rest.length, Nat.add_comm]
      .ok { blank f with
            values := ((first :: rest).flatten.map entry).toArray
            values_size := hsize }
    else .error .raggedRows

/-! ## Reading -/

variable (b : Board)

/-- The width of the board. -/
def width : Nat := b.frame.width

/-- The height of the board. -/
def height : Nat := b.frame.height

/-- The value of a cell. -/
def value (i : Nat) : Option Int := b.values.getD i none

/-- The region of a cell. -/
def region (i : Nat) : Option Region := b.regions.getD i none

/-- The listed cells, in board order. -/
def cells : List Nat := List.range b.listed

/-- The values of the listed cells. -/
def snapshot : List (Option Int) := b.cells.map b.value

/-- A cell as seen from outside. -/
def cell (i : Nat) : Cell :=
  let s := b.frame.site i
  { x := s.x, y := s.y, value := b.value i, region := b.region i }

/-- The listed cells without a value. -/
def emptyCells : List Nat := b.cells.filter fun i => b.value i = none

/-- The listed cells with a value. -/
def filledCells : List Nat := b.cells.filter fun i => b.value i ≠ none

/-- The first listed cell without a value. -/
def findEmpty : Option Nat := b.cells.find? fun i => b.value i = none

/-- Whether every listed cell has a value. -/
def isComplete : Bool := b.cells.all fun i => b.value i ≠ none

/-- Whether a listed cell passes a test. -/
def anyCell (p : Nat → Bool) : Bool := b.listed.any fun i _ => p i

/-- How many listed cells have a value. -/
def filledCount : Nat := b.cells.countP fun i => b.value i ≠ none

/-- The least index that no machine word of 64 bits holds. -/
def indexBound : Int := 9223372036854775808

/-- The cell that a position points at. -/
def locate : Position → Except Fault Nat
  | .index i =>
    let j := if i < 0 then i + b.listed else i
    if 0 ≤ j ∧ j < b.listed then .ok j.toNat
    else if i < -indexBound ∨ indexBound ≤ i then .error .indexWidth
    else .error .indexRange
  | .coords x y =>
    match b.frame.cellAt? x y with
    | some i => .ok i
    | none => .error (.noCell x y)
  | .other => .error .badPosition

/-- The values of the cells at the coordinates of a row on the board. -/
def rowValues (y : Nat) : Except Fault (List (Option Int)) :=
  (List.range b.width).mapM fun (x : Nat) => b.value <$> b.locate (.coords x y)

/-- The values of the board, row by row. -/
def rows : Except Fault (List (List (Option Int))) :=
  (List.range b.height).mapM b.rowValues

/-! ## Writing -/

/-- The board with the value of a cell replaced. -/
def put (i : Nat) (v : Option Int) : Board :=
  { b with
    values := b.values.setIfInBounds i v
    values_size := by simp [b.values_size] }

/-- The board with the region of a cell replaced. -/
def putRegion (i : Nat) (r : Option Region) : Board :=
  { b with
    regions := b.regions.setIfInBounds i r
    regions_size := by simp [b.regions_size] }

/-- Writes values into the cells of a board, from the `i`-th one on. -/
def putFrom : Board → Nat → List (Option Int) → Board
  | b, _, [] => b
  | b, i, v :: vs => putFrom (b.put i v) (i + 1) vs

/-- The board with its listed values overwritten by a snapshot, in which zero
marks an empty cell. -/
def load (vs : List (Option Int)) : Except Fault Board :=
  if vs.length = b.listed then .ok (b.putFrom 0 (vs.map entry))
  else .error (.valueCount b.listed vs.length)

/-- The board with its list of cells cut off before the `n`-th one; a negative
`n` counts from the end. -/
def truncate (n : Int) : Board :=
  { b with
    listed := min b.listed (if n < 0 then n + b.listed else n).toNat
    listed_le := Nat.le_trans (Nat.min_le_left _ _) b.listed_le }

/-- A board of its own with the listed cells of this one. -/
def copy : Except Fault Board :=
  if b.listed = b.frame.size then .ok b
  else .error (.cellCount b.frame.size b.width b.height b.listed)

end Board

/-! ## Neighbouring cells -/

/-- The steps up, right, down and left. -/
def Site.steps : List (Int × Int) := [(0, -1), (1, 0), (0, 1), (-1, 0)]

/-- The cells one step up, right, down and left of a cell, where there are any. -/
def Frame.neighbors (f : Frame) (i : Nat) : List Nat :=
  Site.steps.filterMap fun d => f.cellAt? ((f.site i).x + d.1) ((f.site i).y + d.2)

/-- The cells of `unseen` that no walk from `stack` reaches. Each cell on the
stack that is still unseen is struck off and its neighbours are stacked; each
other one is dropped. -/
def Frame.spread (f : Frame) (unseen stack : List Nat) : List Nat :=
  match stack with
  | [] => unseen
  | i :: rest =>
    if _ : i ∈ unseen then f.spread (unseen.erase i) (f.neighbors i ++ rest)
    else f.spread unseen rest
termination_by (unseen.length, stack.length)
decreasing_by
  · have := List.length_erase_of_mem ‹i ∈ unseen›
    have := List.length_pos_of_mem ‹i ∈ unseen›
    exact Prod.Lex.left _ _ (by omega)
  · exact Prod.Lex.right _ (by simp)

/-- Whether as many cells as the board lists can be reached from the first one. -/
def Board.isConnected (b : Board) : Bool :=
  match b.listed with
  | 0 => true
  | listed + 1 =>
    (b.frame.spread (List.range b.frame.size) [0]).length + (listed + 1) = b.frame.size

end GridFill
