/-
# `GridFill.Sudoku.Basic` — sudoku boards, and puzzles with one solution

A board is split into boxes of equal sides, numbered row by row, and every
listed cell gets the number of its box as its region.  Numbers come from floor
division, so sides of either sign are taken; they only have to divide the sides
of the board.

A sudoku board is a square with boxes as regions, each box holding as many
cells as the square has rows.  It may start with givens, which lie in `1..size`;
`full` fills an empty one at random.

A random puzzle is a full board, filled at random and then carved with the same
source of randomness.  The sample is a classic one of thirty givens; its solution
is checked against the rules once it is found.
-/
import GridFill.Board.Text
import GridFill.Carve

namespace GridFill

/-! ## Boxes as regions -/

/-- The number of the box that holds a site, with `perRow` boxes to a row. -/
def Box.number (box : Box) (perRow : Int) (s : Site) : Int :=
  s.x.fdiv box.width + s.y.fdiv box.height * perRow

namespace Board

/-- Whether a length is a multiple of a side, which must not be zero. -/
def splits (length : Nat) (side : Int) : Except Fault Bool :=
  if side = 0 then .error .zeroModulus else .ok ((length : Int) % side = 0)

/-- Gives the cells from `i` on, `left` of them, the numbers of their boxes. -/
def numberBoxes (box : Box) (perRow : Int) (b : Board) (i : Nat) : Nat → Board
  | 0 => b
  | left + 1 =>
    numberBoxes box perRow
      (b.putRegion i (some (.number (box.number perRow (b.frame.site i))))) (i + 1) left

/-- The board with the boxes as regions of its listed cells. -/
def assignRegions (b : Board) (box : Box) : Except Fault Board := do
  let fits ← (do
    if ← splits b.width box.width then splits b.height box.height else return false)
  if fits then
    return numberBoxes box ((b.width : Int).fdiv box.width) b 0 b.listed
  else
    throw (.unsplittable b.width b.height box.width box.height)

end Board

namespace Sudoku

open Search

/-! ## Sudoku boards -/

/-- The measures of a sudoku: the side of the square and of its boxes. -/
structure Measures where
  size : Int
  box : Box

/-- Nine rows in boxes of three by three. -/
def Measures.nine : Measures := ⟨9, .three⟩

/-- A row of givens, as values, if all of them lie in `1..size` or mark an empty
cell. -/
def givenRow (size : Int) (y : Nat) : Nat → List (Option Int) → Except Fault (List (Option Int))
  | _, [] => .ok []
  | x, v :: vs =>
    match Board.entry v with
    | none => do return none :: (← givenRow size y (x + 1) vs)
    | some n =>
      if 1 ≤ n ∧ n ≤ size then do return some n :: (← givenRow size y (x + 1) vs)
      else .error (.givenRange n x y size)

/-- The rows of givens from `y` on, as values in board order. -/
def givens (size : Int) : Nat → List (List (Option Int)) → Except Fault (List (Option Int))
  | _, [] => .ok []
  | y, r :: rs => do return (← givenRow size y 0 r) ++ (← givens size (y + 1) rs)

/-- A sudoku board without givens. -/
def empty (m : Measures) : Except Fault Board :=
  if m.box.width * m.box.height ≠ m.size then
    .error (.boxArea m.box.width m.box.height m.size)
  else do (← Board.rectangle m.size m.size).assignRegions m.box

/-- A sudoku board with the given rows, in which zero or `none` marks an empty
cell. -/
def ofRows (m : Measures) (rows : List (List (Option Int))) : Except Fault Board := do
  let b ← empty m
  if rows.length = m.size ∧ ∀ r ∈ rows, r.length = m.size then
    return b.putFrom 0 (← givens m.size 0 rows)
  else throw (.givensShape m.size)

/-- A sudoku board filled at random, and the source of randomness after it. -/
def full (m : Measures) (t : Twister) (machine : Machine := {}) :
    Except Fault (Board × Twister) := do
  let start : Walk Unit Twister := { board := ← empty m, tally := {}, memory := (), supply := t }
  match randomSolve (ε := Empty) (.ofRules .sudoku) machine.quiet (.given m.size) start with
  | (.error e, _) => throw e.toFault
  | (.ok false, _) => throw .unfillable
  | (.ok true, w) => return (w.board, w.supply)

/-! ## Random puzzles -/

/-- A puzzle: its board and the cells that were emptied, in ascending order. -/
structure Generated where
  board : Board
  voids : List Nat

/-- A random puzzle with at most the given number of empty cells. -/
def generate (m : Measures) (maxHoles : Option Int) (t : Twister) (machine : Machine := {}) :
    Except Fault Generated := do
  let (b, t) ← full m t machine
  match b.carve (ε := Empty) (.ofRules .sudoku) () maxHoles t machine with
  | (.error e, _) => throw e.toFault
  | (.ok _, c) => return ⟨c.board, c.voids⟩

/-! ## The sample -/

/-- The givens; zero marks an empty cell. -/
def sampleRows : List (List Int) :=
  [[5, 3, 0, 0, 7, 0, 0, 0, 0],
    [6, 0, 0, 1, 9, 5, 0, 0, 0],
    [0, 9, 8, 0, 0, 0, 0, 6, 0],
    [8, 0, 0, 0, 6, 0, 0, 0, 3],
    [4, 0, 0, 8, 0, 3, 0, 0, 1],
    [7, 0, 0, 0, 2, 0, 0, 0, 6],
    [0, 6, 0, 0, 0, 0, 2, 8, 0],
    [0, 0, 0, 4, 1, 9, 0, 0, 5],
    [0, 0, 0, 0, 8, 0, 0, 7, 9]]

/-- The board of the puzzle. -/
def sample : Except Fault Board :=
  ofRows .nine (sampleRows.map fun r => r.map some)

/-- The solved board, checked against the rules. -/
def solvedSample (machine : Machine := {}) : Except Fault Board := do
  let start : Walk Unit Unit := { board := ← sample, tally := {}, memory := (), supply := () }
  match solve (ε := Empty) (.ofRules .sudoku) machine.quiet (.given 9) start with
  | (.error e, _) => throw e.toFault
  | (.ok false, _) => throw .sampleUnsolved
  | (.ok true, w) =>
    if ← Rules.sudoku.wins w.board then return w.board else throw .sampleBroken

end Sudoku

end GridFill
