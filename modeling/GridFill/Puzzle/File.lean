/-
# `GridFill.Puzzle.File` — puzzle files

The first line is a header.  It holds the height, the width, the greatest value,
the name of the rule set and, optionally, the height and width of the boxes
joined by an `x`.  A board line holds one row: numbers, or points for empty
cells.

The second line is blank, and then come the boards, each closed by a blank line
or the end of the file.  Where a board would start with a blank line the boards
are over, and what follows is not read.  The puzzles are named after the file
and numbered from one.
-/
import GridFill.Puzzle.Basic
import GridFill.Text.Numeral

namespace GridFill

/-! ## Headers and rows -/

/-- What the first line of a puzzle file announces. -/
structure Header where
  height : Int
  width : Int
  maxValue : Int
  rules : Rules
  box : Option Box

namespace Header

/-- The sides of a box: its height and width with an `x` between them. -/
def box? (s : List Char) : Option Box :=
  match s.splitOnP fun c => c = 'x' || c = 'X' with
  | [h, w] => do return { height := ← Text.integer? h, width := ← Text.integer? w }
  | _ => none

/-- The words of a header: the numbers, the name of the rule set, the box. -/
def words? : List (List Char) → Option (Int × Int × Int × String × Option Box)
  | h :: w :: m :: name :: more => do
    let h ← Text.integer? h
    let w ← Text.integer? w
    let m ← Text.integer? m
    let box ← match more with
      | [] => some none
      | [b] => (box? b).map some
      | _ => none
    return (h, w, m, String.ofList name, box)
  | _ => none

/-- Reads a header line. -/
def parse (line : List Char) : Except Fault Header :=
  match words? (Text.words line) with
  | none => .error (.badHeader (String.ofList line))
  | some (h, w, m, name, box) =>
    match Rules.ofName? name with
    | none => .error (.unknownRulesIn name (String.ofList line))
    | some rules => .ok { height := h, width := w, maxValue := m, rules := rules, box := box }

end Header

namespace Puzzle

/-- The number that a word of a board line stands for. -/
def entry? (w : List Char) : Option Int :=
  if w = ['.'] then some 0 else Text.integer? w

/-- Reads a board line. -/
def parseRow (line : List Char) : Except Fault (List Int) :=
  match (Text.words line).mapM entry? with
  | some row => .ok row
  | none => .error (.badRow (String.ofList line))

/-! ## Files -/

/-- Groups lines into boards; `board` is the reversed beginning of the current
one. -/
def boardLines (board : List (List Char)) : List (List Char) → List (List (List Char))
  | [] => if board.isEmpty then [] else [board.reverse]
  | l :: ls =>
    if Text.isBlankLine l then
      if board.isEmpty then [] else board.reverse :: boardLines [] ls
    else boardLines (l :: board) ls

/-- The `number`-th puzzle of a file, whose path and stem are given. -/
def ofLines (path stem : String) (h : Header) (number : Nat) (ls : List (List Char)) :
    Except Fault Puzzle := do
  let rows ← ls.mapM parseRow
  if rows.any fun r => r.length ≠ h.width then throw (.rowWidth number path)
  Draft.check
    { name := s!"{stem}-{number}", dims := [h.height, h.width], maxValue := h.maxValue,
      rules := h.rules.name, grid := .plane rows, box := h.box }

/-- The puzzles of the boards from the `number`-th on. -/
def ofBoards (path stem : String) (h : Header) (number : Nat) :
    List (List (List Char)) → Except Fault (List Puzzle)
  | [] => .ok []
  | b :: bs => do
    let p ← ofLines path stem h number b
    return p :: (← ofBoards path stem h (number + 1) bs)

/-- The puzzles of a file with the given path, stem and text. -/
def ofFile (path stem : String) (text : List Char) : Except Fault (List Puzzle) := do
  let ls := Text.lines text
  let h ← Header.parse (Text.trim (ls.headD []))
  if Text.isBlankLine ((ls.drop 1).headD []) then
    ofBoards path stem h 1 (boardLines [] (ls.drop 2))
  else throw .headerGap

end Puzzle

end GridFill
