/-
# `GridFill.Runner.Solve` — solving one puzzle

A puzzle is solved on a board of its own; the finished board is checked against
the win condition, and a second search on a fresh board finds out whether there
is another solution.  The judge keeps its memory from the first search to the
second.  A number that the machine cannot write ends the script where it is to be
written.
-/
import GridFill.Puzzle.Basic
import GridFill.Runner.Transcript
import GridFill.Search.Basic
import GridFill.Settings

namespace GridFill.Runner

open Search

/-- What is shown and logged when a solution breaks the rules. -/
def warning : String := "WARNING: solution does not satisfy the win condition."

/-- A step of a run: it may fail, and what was said until then remains. -/
abbrev Script (ε α : Type) := ExceptT (SearchFault ε) (StateM Transcript) α

variable {σ ε : Type}

namespace Script

/-- Says something. -/
def say (f : Transcript → Transcript) : Script ε Unit := modify f

/-- Takes over the result of something that may be at fault. -/
def lift {α : Type} : Except Fault α → Script ε α
  | .ok a => pure a
  | .error f => throw (.fault f)

/-- Takes over the result of a search, and its reports into the log. -/
def follow {α ρ : Type} (r : Except (SearchFault ε) α × Walk σ ρ) :
    Script ε (α × Walk σ ρ) := do
  say (Transcript.report r.2.reports)
  match r.1 with
  | .ok a => pure (a, r.2)
  | .error e => throw e

end Script

/-- Says that some lines go into the log. -/
def Script.note (ls : List String) : Script ε Unit :=
  say fun t => ls.foldl (fun t l => t.note l) t

/-- The first lines of the log of a puzzle. -/
def heading (p : Puzzle) : List String :=
  [s!"Selected puzzle: {p.name}", s!"Dimensions: ({p.height}, {p.width})"]

/-- The lines about the rules and the values, of which they show the greatest. -/
def details (p : Puzzle) : List String :=
  [s!"Rules: {p.rules.name}, values 1..{p.maxValue}", s!"Empty cells: {p.emptyCount}"]

/-- The line about the settings. -/
def settingsLine (s : Settings) : String := s!"Solver config: {s.text}"

/-- A truth value as text. -/
def showBool (b : Bool) : String := if b then "True" else "False"

/-- A walk on a board, with a fresh tally. -/
def startOn (b : Board) (memory : σ) : Walk σ Unit :=
  { board := b, tally := {}, memory := memory, supply := () }

/-- Solves a puzzle and says how it went; the answer is whether there is a
solution. -/
def solvePuzzle (s : Settings) (j : Judge σ ε) (memory : σ) (p : Puzzle)
    (machine : Machine := {}) : Script ε Bool := do
  let write := fun ns => Script.lift (Text.checkDigits machine.digitLimit ns)
  Script.note (heading p)
  write [p.maxValue]
  Script.note (details p)
  write (s.seed.toList ++ [s.reportInterval])
  Script.note [settingsLine s]
  let b ← Script.lift p.board
  Script.note ["Initial grid:"]
  let grid ← Script.lift (b.text machine.digitLimit)
  Script.say fun t => ((t.note grid).note "").enter .started
  let conditions := machine.reporting s.reportInterval
  let (solved, w) ← Script.follow (solve j conditions (.given p.maxValue) (startOn b memory))
  write [w.tally.nodes, w.tally.validations]
  Script.say (Transcript.enter (.finished w.tally))
  if !solved then
    Script.note ["No solution found."]
    return false
  let solution ← Script.lift (w.board.text machine.digitLimit)
  Script.say fun t => (t.note "Solution found!").announce solution
  unless ← Script.lift (p.rules.wins w.board) do
    Script.say (Transcript.announce warning)
  let fresh ← Script.lift p.board
  let (n, _) ← Script.follow
    (countCompletions j conditions (.given p.maxValue) (startOn fresh w.memory))
  Script.say (Transcript.announce s!"Unique solution: {showBool (!n.multiple)}")
  return true

/-- Runs a script from an empty transcript. -/
def Script.run {α : Type} (x : Script ε α) : Except (SearchFault ε) α × Transcript :=
  StateT.run (ExceptT.run x) {}

end GridFill.Runner
