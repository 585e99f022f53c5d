/-
# `GridFill.Rules` — the rule sets

A rule set answers two questions: may a value stand in a cell, given the rest
of the board (`Rules.allows`), and is the whole board won (`Rules.wins`).

The first is asked of every cell on its own.  A value is refused when another
cell of the same row, column or region holds it already; which of the three
count depends on the rule set.  Rows and columns are found by coordinates,
regions among the listed cells.

The second looks at the finished board.  For rows and columns that only need
distinct values it keeps a table of marks that grows with the values it meets;
a negative value marks a place counted from the end of the table, so it may
meet another mark, or reach below the start, which is a fault.  So is a value too
low or too great for a machine word, or one for which the table would have to grow
by more places than a word can count.  A sudoku needs each row, column and region to hold each
of `1..n` once.
-/
import GridFill.Board.Basic

namespace GridFill

/-- The rule sets, by what they forbid. -/
inductive Rules where
  | permissive
  | rowUnique
  | latin
  | sudoku
deriving DecidableEq

namespace Rules

/-- All rule sets. -/
def all : List Rules := [.permissive, .rowUnique, .latin, .sudoku]

/-- The name of a rule set in puzzle files. -/
def name : Rules → String
  | permissive => "permissive"
  | rowUnique => "row-unique"
  | latin => "latin"
  | sudoku => "sudoku"

/-- The rule set with a given name. -/
def ofName? (s : String) : Option Rules :=
  all.find? fun r => r.name = s

/-- The rule set with a given name, or a fault. -/
def ofName (s : String) : Except Fault Rules :=
  match ofName? s with
  | some r => .ok r
  | none => .error (.unknownRules s)

/-! ## Single values -/

/-- Whether one of the given cells, other than `i`, holds `v`. -/
def taken (b : Board) (i : Nat) (v : Int) (js : List Nat) : Bool :=
  js.any fun j => b.value j == some v && j != i

/-- Whether another cell of the row of `i` holds `v`. -/
def takenInRow (b : Board) (i : Nat) (v : Int) : Bool :=
  taken b i v (b.frame.row (b.frame.site i).y)

/-- Whether another cell of the column of `i` holds `v`. -/
def takenInCol (b : Board) (i : Nat) (v : Int) : Bool :=
  taken b i v (b.frame.col (b.frame.site i).x)

/-- Whether another listed cell of the region of `i` holds `v`. A cell without a
region shares it with no other. -/
def takenInRegion (b : Board) (i : Nat) (v : Int) : Bool :=
  match b.region i with
  | none => false
  | some r => b.anyCell fun j => b.value j == some v && j != i && b.region j == some r

/-- Whether a rule set lets `v` stand in cell `i`. -/
def allows : Rules → Board → Nat → Int → Bool
  | permissive, _, _, _ => true
  | rowUnique, b, i, v => !takenInRow b i v
  | latin, b, i, v => !takenInRow b i v && !takenInCol b i v
  | sudoku, b, i, v => !takenInRow b i v && !takenInCol b i v && !takenInRegion b i v

/-! ## Whole boards -/

/-- Whether values differ, by marks in a table of `length` places that grows to
hold each value met; `marks` are the places marked so far. -/
def distinctFrom (length : Nat) (marks : List Nat) : List Int → Except Fault Bool
  | [] => .ok true
  | v :: vs =>
    let growth := v + 1 - length
    let length := max length (v + 1).toNat
    let place := if v < 0 then v + length else v
    if Board.indexBound ≤ growth then .error .lengthWidth
    else if v < -Board.indexBound ∨ Board.indexBound ≤ v then .error .indexWidth
    else if place < 0 then .error .markRange
    else if marks.contains place.toNat then .ok false
    else distinctFrom length (place.toNat :: marks) vs

/-- Whether the values present differ. -/
def distinct (vs : List (Option Int)) : Except Fault Bool :=
  distinctFrom 1 [] (vs.filterMap id)

/-- Whether each group of values differs in itself; the first group that does
not, or cannot be judged, decides. -/
def allDistinct : List (List (Option Int)) → Except Fault Bool
  | [] => .ok true
  | g :: gs =>
    match distinct g with
    | .ok true => allDistinct gs
    | r => r

/-- Whether values are each of `1..size` once. -/
def isPermutation (size : Nat) (vs : List (Option Int)) : Bool :=
  vs.length == size && vs.all (fun v => v.any fun (n : Int) => 1 ≤ n && n ≤ size) &&
    vs.Nodup

/-- The values of the rows on the board. -/
def rowGroups (b : Board) : List (List (Option Int)) :=
  (List.range b.height).map fun (y : Nat) => (b.frame.row y).map b.value

/-- The values of the columns on the board. -/
def colGroups (b : Board) : List (List (Option Int)) :=
  (List.range b.width).map fun (x : Nat) => (b.frame.col x).map b.value

/-- The regions of the listed cells, each one once. -/
def regionsOf (b : Board) : List (Option Region) :=
  (b.cells.map b.region).eraseDups

/-- The values of the listed cells with a given region. -/
def regionGroup (b : Board) (r : Option Region) : List (Option Int) :=
  (b.cells.filter fun i => b.region i = r).map b.value

/-- Whether a board is a finished sudoku: square and complete, with as many
regions as rows, no cell without one, and each of `1..n` once in every row,
column and region. -/
def wonSudoku (b : Board) : Bool :=
  b.height == b.width && b.isComplete &&
    (rowGroups b).all (isPermutation b.width) && (colGroups b).all (isPermutation b.width) &&
    !(regionsOf b).contains none && (regionsOf b).length == b.width &&
    (regionsOf b).all fun r => isPermutation b.width (regionGroup b r)

/-- Whether a board is won under a rule set. -/
def wins : Rules → Board → Except Fault Bool
  | permissive, b => .ok b.isComplete
  | rowUnique, b => if b.isComplete then allDistinct (rowGroups b) else .ok false
  | latin, b =>
    if b.isComplete then
      match allDistinct (rowGroups b) with
      | .ok true => allDistinct (colGroups b)
      | r => r
    else .ok false
  | sudoku, b => .ok (wonSudoku b)

end Rules

end GridFill
