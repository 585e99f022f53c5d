/-
# `GridFill.Search.Explore` — the search itself

A search works through the empty cells of a board in board order.  Each frame
takes the next of them, draws an order of values, if the machine has room for the
list that this takes, and tries them one by one: a value the judge accepts is
written into the cell, and the rest of the cells is explored in the same way, one
level deeper.  When no cell is left the board is complete and the goal decides
whether to go on.

The board is changed on the way down and changed back on the way up.  A frame
clears its cell after every accepted value that does not end the search, and
also when the search ends, unless the goal is to leave the board filled; a
failure anywhere clears the cells of all frames it passes.
-/
import GridFill.Search.Plan

namespace GridFill.Search

/-- Why a search came to no result: a fault of its own, or the judge's. -/
inductive SearchFault (ε : Type) where
  | fault (f : Fault)
  | raised (e : ε)

/-- A search with a judge that has no failures of its own fails only by a fault. -/
def SearchFault.toFault : SearchFault Empty → Fault
  | .fault f => f
  | .raised e => nomatch e

/-- What the search fails with when its judge breaks down: running out of stack is
a fault of the search, on a board of so many cells, and everything else is
passed on as it is. -/
def SearchFault.ofBreakdown {ε : Type} (cells : Nat) : Breakdown ε → SearchFault ε
  | .outOfStack => .fault (.depthExceeded cells)
  | .raised e => .raised e

/-- All that a search changes: the board, the tally, the memory of the judge,
the supply of orders, and the reports so far, oldest first. -/
structure Walk (σ ρ : Type) where
  board : Board
  tally : Tally
  memory : σ
  supply : ρ
  reports : Array Report := #[]

/-- The result of a frame. -/
abbrev Step (σ ρ ε : Type) := Except (SearchFault ε) Signal × Walk σ ρ

variable {σ ρ ε : Type}

namespace Walk

/-- Writes into a cell of the board. -/
def put (w : Walk σ ρ) (i : Nat) (v : Option Int) : Walk σ ρ :=
  { w with board := w.board.put i v }

/-- The report due at this moment. -/
def report (w : Walk σ ρ) : Report :=
  { filled := w.board.filledCount, cells := w.board.listed, tally := w.tally }

end Walk

/-- Enters a frame: counts it and reports if that is due.  A report with a number
that cannot be written ends the search. -/
def enter (c : Conditions) (depth : Nat) (w : Walk σ ρ) :
    Except (SearchFault ε) Unit × Walk σ ρ :=
  if c.depthLimit < depth then (.error (.fault (.depthExceeded w.board.listed)), w)
  else
    let w := { w with tally := w.tally.enter depth }
    match c.interval with
    | none => (.ok (), w)
    | some k =>
      if k = 0 then (.error (.fault .zeroModulus), w)
      else if w.tally.nodes % k = 0 then
        match Text.checkDigits c.digitLimit w.report.numbers with
        | .error f => (.error (.fault f), w)
        | .ok _ => (.ok (), { w with reports := w.reports.push w.report })
      else (.ok (), w)

/-- Asks the judge about one value. -/
def query (j : Judge σ ε) (i : Nat) (v : Int) (w : Walk σ ρ) :
    Except (SearchFault ε) Bool × Walk σ ρ :=
  let w := { w with tally := w.tally.tryValue }
  match j.ask w.board i v w.memory with
  | (.ok a, m) => (.ok a, { w with memory := m })
  | (.error e, m) => (.error (.ofBreakdown w.board.listed e), { w with memory := m })

/-- Leaves a cell after its value was explored. -/
def leave (g : Goal) (i : Nat) : Step σ ρ ε → Step σ ρ ε
  | (.ok .stop, w) => if g.keeps then (.ok .stop, w) else (.ok .stop, w.put i none)
  | (r, w) => (r, w.put i none)

/-- Tries one value in a cell, exploring what follows if it is accepted. -/
def tryValue (p : Plan σ ρ ε) (deeper : Walk σ ρ → Step σ ρ ε) (i : Nat) (v : Int)
    (w : Walk σ ρ) : Step σ ρ ε :=
  match query p.judge i v w with
  | (.error e, w) => (.error e, w)
  | (.ok false, w) => (.ok .proceed, w)
  | (.ok true, w) => leave p.goal i (deeper (w.put i (some v)))

/-- Tries the last `left` values of an order, until one of them ends the search. -/
def tryOrder (step : Int → Walk σ ρ → Step σ ρ ε) (o : Order) : Nat → Walk σ ρ → Step σ ρ ε
  | 0, w => (.ok .proceed, w)
  | left + 1, w =>
    match step (o.value (o.count - (left + 1))) w with
    | (.ok .proceed, w) => tryOrder step o left w
    | r => r

/-- Explores the completions of a board in the given cells. -/
def explore (p : Plan σ ρ ε) : List Nat → Nat → Walk σ ρ → Step σ ρ ε
  | [], depth, w =>
    match enter p.conditions depth w with
    | (.error e, w) => (.error e, w)
    | (.ok _, w) =>
      let r := p.goal.reached w.tally
      (.ok r.1, { w with tally := r.2 })
  | i :: cells, depth, w =>
    match enter p.conditions depth w with
    | (.error e, w) => (.error e, w)
    | (.ok _, w) =>
      if p.conditions.lengthLimit < p.supply.listLength then
        (.error (.fault .lengthWidth), w)
      else
        let d := p.supply.draw w.supply
        tryOrder (tryValue p (explore p cells (depth + 1)) i) d.1 d.1.count
          { w with supply := d.2 }

/-- Runs a search from the first frame on. -/
def run (p : Plan σ ρ ε) (w : Walk σ ρ) : Step σ ρ ε :=
  explore p w.board.emptyCells 0 w

end GridFill.Search
