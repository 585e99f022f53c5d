/-
# `GridFill.Carve` — emptying cells while the solution stays unique

The filled cells of a board are visited in a given order.  Each one is cleared,
and stays cleared only if the board then has exactly one completion with values
up to its width; the cells that stay cleared are the voids.  A bound on the
number of voids ends the visit early.

If a count fails, because the judge does or because the machine has not room for
it, the carving ends there: the voids so far are kept, and the cell under test is
left cleared.
-/
import GridFill.Search.Basic

namespace GridFill

open Search

/-- A board being carved, its voids in ascending order, and the memory of the
judge. -/
structure Carving (σ : Type) where
  board : Board
  voids : List Nat := []
  memory : σ

/-- Inserts a number into an ascending list. -/
def insertAscending (n : Nat) : List Nat → List Nat
  | [] => [n]
  | m :: ms => if n < m then n :: m :: ms else m :: insertAscending n ms

namespace Carving

variable {σ ε : Type}

/-- Clears a cell and keeps it clear if exactly one completion is left. -/
def tryCell (machine : Machine) (j : Judge σ ε) (c : Carving σ) (i : Nat) :
    Except (SearchFault ε) Unit × Carving σ :=
  let saved := c.board.value i
  let start : Walk σ Unit :=
    { board := c.board.put i none, tally := {}, memory := c.memory, supply := () }
  match countCompletions j machine.quiet (.given c.board.width) start with
  | (.error e, w) => (.error e, { c with board := w.board, memory := w.memory })
  | (.ok n, w) =>
    if n.found && !n.multiple then
      (.ok (), { board := w.board, voids := insertAscending i c.voids, memory := w.memory })
    else (.ok (), { c with board := w.board.put i saved, memory := w.memory })

/-- Whether a bound on the number of voids is reached. -/
def isFull (maxHoles : Option Int) (c : Carving σ) : Bool :=
  maxHoles.any fun (n : Int) => n ≤ c.voids.length

/-- Visits cells in the given order until the bound is reached. -/
def visit (machine : Machine) (j : Judge σ ε) (maxHoles : Option Int) :
    List Nat → Carving σ → Except (SearchFault ε) Unit × Carving σ
  | [], c => (.ok (), c)
  | i :: is, c =>
    if c.isFull maxHoles then (.ok (), c)
    else
      match tryCell machine j c i with
      | (.ok _, c) => visit machine j maxHoles is c
      | r => r

end Carving

/-- Carves a board, visiting its filled cells in a random order. -/
def Board.carve {σ ε : Type} (b : Board) (j : Judge σ ε) (memory : σ) (maxHoles : Option Int)
    (t : Twister) (machine : Machine := {}) : Except (SearchFault ε) Unit × Carving σ :=
  Carving.visit machine j maxHoles (t.shuffle b.filledCells.toArray).1.toList
    { board := b, memory := memory }

end GridFill
