/-
# `GridFill.Fault` — what can go wrong

One constructor per cause, with the data that its message shows.  Every
function of the library that can fail says so with a `Fault`; the wording is in
`Fault.message` and nowhere else.
-/
import GridFill.Text.Basic

namespace GridFill

/-- A machine word that a number has to fit in: one that holds a value, or one that
holds a length. -/
inductive Word where
  | long
  | size
deriving DecidableEq

/-- What a word is called in messages. -/
def Word.name : Word → String
  | long => "long"
  | size => "ssize_t"

/-- Why an operation on boards, puzzles, searches or clock readings was refused. -/
inductive Fault where
  /-- A board needs a positive width and height. -/
  | dimensions (width height : Int)
  /-- A board was given more or fewer cells than its area. -/
  | cellCount (expected width height got : Nat)
  /-- There are no rows, or the first one is empty. -/
  | emptyGrid
  /-- The rows differ in length. -/
  | raggedRows
  /-- No cell has these coordinates. -/
  | noCell (x y : Int)
  /-- A position that is neither an index nor a pair of coordinates. -/
  | badPosition
  /-- An index past either end of the cells. -/
  | indexRange
  /-- An index of more than 64 bits. -/
  | indexWidth
  /-- A snapshot of the wrong length. -/
  | valueCount (expected got : Nat)
  /-- A negative value reached below the start of the table of marks. -/
  | markRange
  /-- A remainder by zero was asked for. -/
  | zeroModulus
  /-- The sides of a box do not divide those of the board. -/
  | unsplittable (width height boxWidth boxHeight : Int)
  /-- A box does not hold as many cells as there are values. -/
  | boxArea (boxWidth boxHeight size : Int)
  /-- The givens do not form a square of the right size. -/
  | givensShape (size : Int)
  /-- A given lies outside `1..size`. -/
  | givenRange (value : Int) (x y : Nat) (size : Int)
  /-- An empty board has no completion. -/
  | unfillable
  /-- The sample puzzle has no solution. -/
  | sampleUnsolved
  /-- The solution of the sample puzzle breaks the rules. -/
  | sampleBroken
  /-- Something other than a positive whole number was given as largest value. -/
  | badLimit (shown : String)
  /-- No rule set has this name. -/
  | unknownRules (name : String)
  /-- No rule set has the name in this header line. -/
  | unknownRulesIn (name line : String)
  /-- The largest value of a puzzle is not positive. -/
  | maxValue (given : Int)
  /-- The grid of a puzzle has other dimensions than announced. -/
  | gridShape (shape dims : List Int)
  /-- The grid of a puzzle has one or three dimensions, as announced. -/
  | gridDepth (got : Nat)
  /-- A grid of one dimension has no rows to show. -/
  | gridRows (entries : Nat)
  /-- The grid of a puzzle holds a value outside `0..maxValue`. -/
  | gridValues (maxValue : Int)
  /-- An entry of a grid, or the length of a list, does not fit in its word. -/
  | entryWidth {word : Word}
  /-- A number has more digits than may be written. -/
  | digitCount (most : Nat)
  /-- The boxes of a sudoku do not fit its grid. -/
  | boxFit (boxHeight boxWidth height width : Int)
  /-- A header line with the wrong number of words, or a word that is no number. -/
  | badHeader (line : String)
  /-- The line after the header is not blank. -/
  | headerGap
  /-- A board line with a word that is neither a number nor an empty cell. -/
  | badRow (line : String)
  /-- A board of a file has a row of the wrong width. -/
  | rowWidth (number : Nat) (path : String)
  /-- A duration that is not a number. -/
  | notANumber
  /-- A search went deeper than the call stack allows. -/
  | depthExceeded (cells : Nat)
deriving DecidableEq

namespace Fault

/-- An entry of a grid has too many bits. -/
abbrev valueWidth : Fault := @entryWidth .long

/-- A list would be too long. -/
abbrev lengthWidth : Fault := @entryWidth .size

end Fault

/-- Whole numbers between parentheses, a single one with a comma after it. -/
def showTuple : List Int → String
  | [n] => s!"({n},)"
  | ns => "(" ++ String.intercalate ", " (ns.map toString) ++ ")"

/-- What a fault says. -/
def Fault.message : Fault → String
  | .dimensions w h => s!"Board dimensions must be positive, got {w}x{h}."
  | .cellCount e w h g => s!"Expected {e} cells for a {w}x{h} board, got {g}."
  | .emptyGrid => "Cannot create a board from an empty grid."
  | .raggedRows => "All rows must have the same length."
  | .noCell x y => s!"No cell at ({x}, {y})."
  | .badPosition => "Invalid index type for Board."
  | .indexRange => "list index out of range"
  | .indexWidth => "cannot fit 'int' into an index-sized integer"
  | .valueCount e g => s!"Expected {e} values, got {g}."
  | .markRange => "bitarray index out of range"
  | .zeroModulus => "integer modulo by zero"
  | .unsplittable w h bw bh =>
      s!"A {w}x{h} board cannot be split into {bw}x{bh} regions."
  | .boxArea bw bh s => s!"{bw}x{bh} regions do not hold {s} values."
  | .givensShape s => s!"Initial puzzle must be {s}x{s}."
  | .givenRange v x y s => s!"Value {v} at ({x}, {y}) is out of range 1..{s}."
  | .unfillable => "Failed to fill an empty Sudoku board."
  | .sampleUnsolved => "No solution found for the sample puzzle."
  | .sampleBroken => "Solution does not satisfy Sudoku constraints."
  | .badLimit shown => s!"max_value must be a positive integer, got {shown}."
  | .unknownRules name => s!"Unknown rule set {Text.quoted name}."
  | .unknownRulesIn name line =>
      s!"Unknown rule set '{name}' in header line: '{line}'"
  | .maxValue n => s!"max_value must be positive, got {n}."
  | .gridShape shape dims =>
      s!"Grid shape {showTuple shape} does not match dimensions {showTuple dims}."
  | .gridDepth n =>
      if n < 2 then s!"not enough values to unpack (expected 2, got {n})"
      else "too many values to unpack (expected 2)"
  | .gridRows n =>
      if n = 0 then "tuple index out of range" else "'int' object is not iterable"
  | .gridValues m => s!"Grid contains values outside 0..{m}."
  | @entryWidth word => s!"Python int too large to convert to C {word.name}"
  | .digitCount n =>
      s!"Exceeds the limit ({n} digits) for integer string conversion; " ++
        "use sys.set_int_max_str_digits() to increase the limit"
  | .boxFit bh bw h w => s!"({bh}, {bw}) regions do not fit a {h}x{w} Sudoku."
  | .badHeader line => s!"Invalid header line: '{line}'"
  | .headerGap => "Expected a blank line after the header."
  | .badRow line => s!"Invalid board row: '{line}'"
  | .rowWidth n path => s!"Board {n} in {path} has rows of wrong width."
  | .notANumber => "cannot convert float NaN to integer"
  | .depthExceeded n => s!"Search on a board of {n} cells exhausted the call stack."

end GridFill
