/-
# `GridFill.Board.Text` — boards as text

A value is written in decimal and an empty cell as a point.  The plain text has
one line per row, its values separated by single spaces.  The boxed text adds a
bar after every `box.width`-th column and a line of dashes after every
`box.height`-th row, except at the outer edges.

A machine may refuse to write numbers of very many digits.  Then a board that holds
one has neither text.
-/
import GridFill.Board.Basic
import GridFill.Text.Numeral

namespace GridFill

/-- The sides of a box. -/
structure Box where
  width : Int
  height : Int
deriving DecidableEq

/-- A box of three by three. -/
def Box.three : Box := ⟨3, 3⟩

namespace Board

/-- A value, however many digits it has, or a point for an empty cell. -/
def showValue : Option Int → String
  | none => "."
  | some v => toString v

/-- A board as one line of values per row. -/
def text (b : Board) (limit : Option Nat := Text.usualLimit) : Except Fault String := do
  let rows ← b.rows
  Text.checkDigits limit (rows.flatten.filterMap id)
  return String.intercalate "\n" (rows.map fun r => String.intercalate " " (r.map showValue))

/-- Whether a separator belongs after place `i` of `count`, one after every
`side` places but none at the end. -/
def separates (side : Int) (i count : Nat) : Except Fault Bool :=
  if side = 0 then .error .zeroModulus
  else .ok ((i + 1 : Int) % side = 0 && i + 1 < count)

/-- The words of one row of the boxed text. -/
def boxedRow (b : Board) (limit : Option Nat) (box : Box) (y : Nat) :
    Except Fault (List String) := do
  let words ← (List.range b.width).mapM fun (x : Nat) => do
    let i ← b.locate (.coords x y)
    Text.checkDigits limit (b.value i).toList
    let bar ← separates box.width x b.width
    return if bar then [showValue (b.value i), "|"] else [showValue (b.value i)]
  return words.flatten

/-- The rows of the boxed text from `y` on, `left` of them. The first line of all
fixes the length of the dashes. -/
def boxedLines (b : Board) (limit : Option Nat) (box : Box) (first : Option String) (y : Nat) :
    Nat → Except Fault (List String)
  | 0 => .ok []
  | left + 1 => do
    let line := String.intercalate " " (← b.boxedRow limit box y)
    let head := first.getD line
    let rule ← separates box.height y b.height
    let rest ← b.boxedLines limit box (some head) (y + 1) left
    return line :: if rule then String.ofList (List.replicate head.length '-') :: rest else rest

/-- A board with separators between boxes. -/
def boxedText (b : Board) (box : Box) (limit : Option Nat := Text.usualLimit) :
    Except Fault String :=
  String.intercalate "\n" <$> b.boxedLines limit box none 0 b.height

end Board

end GridFill
