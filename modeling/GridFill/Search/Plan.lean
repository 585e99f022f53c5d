/-
# `GridFill.Search.Plan` — what a search is given

A search counts what it does.  A tally may start at any numbers, so that several
searches can share one; a report is a tally together with how far the board was
filled at that moment.

A search knows nothing of rows or regions.  It asks a judge whether a value may
stand in a cell of the current board.  A judge may remember earlier queries,
and it may fail to answer; it cannot change the board.  Besides the judges of the
rule sets there are two that wrap another one: `recorded` keeps a list of the
queries answered, and `failingAfter` stops answering after a given number of them.

The values are tried in some order: a number of values and the value at each rank.
The ascending order of `1..m` costs nothing however great `m` is; a shuffled one is
a list of its values.  Each frame of a search draws an order of its own from a
supply, which says how long a list it needs for that.

The goals are two.  `Goal.fill` ends at the first complete board and keeps it.
`Goal.count` counts complete boards, ends when the count reaches a threshold,
and keeps none.  Besides, the machine that a search runs on sets its limits.
-/
import GridFill.Random.Twister
import GridFill.Rules
import GridFill.Text.Numeral

namespace GridFill.Search

/-! ## Tallies and reports -/

/-- Frames entered, values tried, complete boards counted, and the greatest
depth reached. -/
structure Tally where
  nodes : Int := 0
  validations : Int := 0
  solutions : Int := 0
  maxDepth : Int := 0
deriving DecidableEq

namespace Tally

/-- Counts a frame at the given depth. -/
def enter (t : Tally) (depth : Nat) : Tally :=
  { t with nodes := t.nodes + 1, maxDepth := max t.maxDepth depth }

/-- Counts a value tried. -/
def tryValue (t : Tally) : Tally := { t with validations := t.validations + 1 }

/-- Counts a complete board. -/
def complete (t : Tally) : Tally := { t with solutions := t.solutions + 1 }

end Tally

/-- A tally and the number of cells with a value, out of how many. -/
structure Report where
  filled : Nat
  cells : Nat
  tally : Tally
deriving DecidableEq

/-- The numbers that a report shows. -/
def Report.numbers (r : Report) : List Int :=
  [r.filled, r.cells, r.tally.nodes, r.tally.validations, r.tally.solutions, r.tally.maxDepth]

/-- A report as one line, given the text of the time elapsed. -/
def Report.line (r : Report) (elapsed : String) : String :=
  let t := r.tally
  s!"*{r.filled}/{r.cells}* N:{Text.withCommas t.nodes} V:{Text.withCommas t.validations} " ++
    s!"S:{t.solutions} D:{t.maxDepth} T:{elapsed}"

/-! ## Judges -/

/-- Why a judge gave no answer: it ran out of call stack, or for a reason of
its own. -/
inductive Breakdown (ε : Type) where
  | outOfStack
  | raised (e : ε)

/-- One who judges values, with a memory of type `σ` and failures of type `ε`. -/
structure Judge (σ ε : Type) where
  ask : Board → Nat → Int → σ → Except (Breakdown ε) Bool × σ

/-- A cell and the value asked about. -/
structure Query where
  cell : Nat
  value : Int
deriving DecidableEq

namespace Judge

/-- The judge of a test that needs no memory and never fails. -/
def ofTest {σ ε : Type} (test : Board → Nat → Int → Bool) : Judge σ ε where
  ask b i v s := (.ok (test b i v), s)

/-- The judge of a rule set. -/
def ofRules {σ ε : Type} (r : Rules) : Judge σ ε := ofTest r.allows

/-- A judge that also lists the queries it answers, oldest first. -/
def recorded {σ ε : Type} (j : Judge σ ε) : Judge (σ × Array Query) ε where
  ask b i v s :=
    match j.ask b i v s.1 with
    | (.ok a, m) => (.ok a, (m, s.2.push ⟨i, v⟩))
    | (.error e, m) => (.error e, (m, s.2))

/-- A judge that answers `n` queries and breaks down at every later one. Its
memory holds the number answered so far. -/
def failingAfter {σ ε : Type} (n : Nat) (e : Breakdown ε) (j : Judge σ ε) :
    Judge (σ × Nat) ε where
  ask b i v s :=
    if n ≤ s.2 then (.error e, s)
    else
      match j.ask b i v s.1 with
      | (a, m) => (a, (m, s.2 + 1))

end Judge

/-! ## Orders of values -/

/-- The values a frame tries, by rank from zero. -/
structure Order where
  count : Nat
  value : Nat → Int

namespace Order

/-- `1..m` in ascending order. -/
def ascending (m : Nat) : Order where
  count := m
  value rank := rank + 1

/-- The given values in the given order. -/
def ofArray (a : Array Int) : Order where
  count := a.size
  value rank := a.getD rank 0

/-- The values in the order of trying. -/
def toList (o : Order) : List Int := (List.range o.count).map o.value

end Order

/-- A supply of orders whose state has type `ρ`, and the length of the list that
it makes for each. -/
structure Supply (ρ : Type) where
  draw : ρ → Order × ρ
  listLength : Nat := 0

namespace Supply

/-- The same ascending order of `1..m` for every frame. -/
def ascending (m : Nat) : Supply Unit where
  draw _ := (.ascending m, ())

/-- A freshly shuffled order of `1..m` for every frame. -/
def shuffled (m : Nat) : Supply Twister where
  draw t :=
    let r := t.shuffle (Order.ascending m).toList.toArray
    (.ofArray r.1, r.2)
  listLength := m

end Supply

/-! ## Goals -/

/-- What a search is after. -/
inductive Goal where
  /-- The first complete board, left filled. -/
  | fill
  /-- The number of complete boards, until the tally shows `stopAt` of them. -/
  | count (stopAt : Int)

/-- Whether a search goes on with the next value or ends. -/
inductive Signal where
  | proceed
  | stop
deriving DecidableEq

/-- What happens at a complete board. -/
def Goal.reached : Goal → Tally → Signal × Tally
  | .fill, t => (.stop, t)
  | .count stopAt, t =>
    let t := t.complete
    (if stopAt ≤ t.solutions then .stop else .proceed, t)

/-- Whether the board stays as it is when the search ends. -/
def Goal.keeps : Goal → Bool
  | .fill => true
  | .count _ => false

/-! ## Circumstances -/

/-- How many frames are taken to fit below the first one, unless it is said
otherwise. -/
def stackDepth : Nat := 950

/-- The limits of the machine that a search runs on: how many frames may be open
below the first one, how many values a list may hold, and how many digits a
number may be written with, if that is limited. -/
structure Machine where
  depthLimit : Nat := stackDepth
  lengthLimit : Nat := 9223372036854775807
  digitLimit : Option Nat := Text.usualLimit

/-- The circumstances of a search: the machine, and after how many frames a report
is due, if reports are wanted. -/
structure Conditions extends Machine where
  interval : Option Int := none

namespace Machine

/-- A search without reports. -/
def quiet (machine : Machine) : Conditions := { toMachine := machine }

/-- A search with reports after every so many frames. -/
def reporting (machine : Machine) (interval : Int) : Conditions :=
  { toMachine := machine, interval := some interval }

end Machine

/-- All that stays fixed during a search. -/
structure Plan (σ ρ ε : Type) where
  judge : Judge σ ε
  supply : Supply ρ
  goal : Goal
  conditions : Conditions

end GridFill.Search
