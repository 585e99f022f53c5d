/-
# `GridFill.Puzzle.Basic` — puzzles

A puzzle names a rule set, the greatest value, and a grid in which zero marks an
empty cell; a sudoku also has the sides of its boxes.  Anyone may write a
`Draft`; `Draft.check` turns it into a `Puzzle` or says what is wrong with it.
-/
import GridFill.Rules
import GridFill.Sudoku.Basic

namespace GridFill

/-- Numbers arranged in one, two or three dimensions. -/
inductive Grid where
  | line (entries : List Int)
  | plane (rows : List (List Int))
  | solid (layers : List (List (List Int)))

namespace Grid

/-- The extent in each dimension, taken from the first entry of each. -/
def shape : Grid → List Int
  | line es => [es.length]
  | plane rs => [rs.length, (rs.headD []).length]
  | solid ls => [ls.length, (ls.headD []).length, ((ls.headD []).headD []).length]

/-- All numbers in reading order. -/
def entries : Grid → List Int
  | line es => es
  | plane rs => rs.flatten
  | solid ls => ls.flatten.flatten

end Grid

/-- A puzzle as written down, not yet checked. -/
structure Draft where
  name : String
  dims : List Int
  maxValue : Int
  rules : String
  grid : Grid
  box : Option Box := none

/-- A puzzle whose rule set is known and whose grid has the dimensions announced
and entries in `0..maxValue`. -/
structure Puzzle where
  name : String
  height : Nat
  width : Nat
  maxValue : Nat
  rules : Rules
  rows : List (List Int)
  box : Option Box

namespace Draft

/-- Whether a number fits into 64 bits with a sign. -/
def isWord (n : Int) : Bool := -Board.indexBound ≤ n && n < Board.indexBound

/-- The whole number nearest to the square root of `n`. -/
def nearestRoot (n : Nat) : Nat :=
  ((List.range (n + 1)).find? fun r => n ≤ r * r + r).getD 0

/-- The box of a sudoku of the given dimensions: the one announced, or a square
with the root of the width as its side. It has to hold as many cells as a row
of a square grid. -/
def fitBox (box : Option Box) (height width : Nat) : Except Fault Box :=
  let b := box.getD ⟨nearestRoot width, nearestRoot width⟩
  if height ≠ width ∨ b.height * b.width ≠ width then
    .error (.boxFit b.height b.width height width)
  else .ok b

/-- The puzzle of a draft. -/
def check (d : Draft) : Except Fault Puzzle :=
  if !d.grid.entries.all isWord then .error .valueWidth
  else
    match Rules.ofName? d.rules with
    | none => .error (.unknownRules d.rules)
    | some rules =>
      if d.maxValue < 1 then .error (.maxValue d.maxValue)
      else if d.grid.shape ≠ d.dims then .error (.gridShape d.grid.shape d.dims)
      else if !d.grid.entries.all (fun v => 0 ≤ v && v ≤ d.maxValue) then
        .error (.gridValues d.maxValue)
      else
        match d.grid with
        | .plane rows =>
          let height := rows.length
          let width := (rows.headD []).length
          let puzzle : Puzzle :=
            { name := d.name, height := height, width := width, maxValue := d.maxValue.toNat,
              rules := rules, rows := rows, box := d.box }
          if !rows.all (fun r => r.length = width) then .error .raggedRows
          else if rules = .sudoku then do
            let b ← fitBox d.box height width
            return { puzzle with box := some b }
          else .ok puzzle
        | .line es =>
          .error (if rules = .sudoku then .gridDepth 1 else .gridRows es.length)
        | .solid _ => .error (.gridDepth 3)

end Draft

namespace Puzzle

/-- The number of empty cells. -/
def emptyCount (p : Puzzle) : Nat := p.rows.flatten.count 0

/-- The grid as one line per row, with points for empty cells. -/
def gridText (p : Puzzle) : String :=
  String.intercalate "\n"
    (p.rows.map fun r =>
      String.intercalate " " (r.map fun v => Board.showValue (Board.entry (some v))))

/-- A line that describes the puzzle, and its grid. -/
def text (p : Puzzle) : String :=
  s!"{p.name} ({p.height}x{p.width}, {p.rules.name}, 1..{p.maxValue})\n{p.gridText}"

/-- A board with the grid of the puzzle and, when boxes matter, its boxes as
regions. -/
def boardFor (p : Puzzle) (boxes : Bool) : Except Fault Board := do
  let b ← Board.ofRows (p.rows.map fun r => r.map some)
  match boxes, p.box with
  | true, some box => b.assignRegions box
  | _, _ => return b

/-- A fresh board of the puzzle. -/
def board (p : Puzzle) : Except Fault Board := p.boardFor (p.rules = .sudoku)

end Puzzle

end GridFill
