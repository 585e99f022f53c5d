/-
# `GridFill.Command` — the command line

The program takes the path of a puzzle file, or the word `generate` with an
optional seed.  Anything else gets a line that says so, and ends the program
with status one.
-/
import GridFill.Runner.Run
import GridFill.Sudoku.Basic

namespace GridFill

open Runner Search

/-- What a command line asks for. -/
inductive Command where
  | generate (seed : Option Int)
  | solve (path : Path)

namespace Command

/-- How the program is to be called. -/
def usage : String := "Usage: gridcsp <path_to_puzzle_file> | gridcsp generate [seed]"

/-- Reads a command line, without the name of the program. -/
def ofArgs? : List String → Option Command
  | ["generate"] => some (.generate none)
  | ["generate", seed] => (Text.integer? seed.toList).map fun n => .generate (some n)
  | [path] => some (.solve (.ofString path))
  | _ => none

variable {m : Type → Type} [Monad m]

/-- Shows a random puzzle and the number of its empty cells. -/
def showGenerated (h : Host m) (seed : Int) : m (Except (Stop Empty) Unit) := do
  let text : Except Fault String := do
    let g ← Sudoku.generate .nine none (.ofSeed seed)
    return s!"{← g.board.boxedText .three}\nHoles: {g.voids.length}\n"
  match text with
  | .error f => return .error (.fault f)
  | .ok t => do h.tell t; return .ok ()

/-- Carries out a command. -/
def perform (h : Host m) (s : Settings) : Command → m (Except (Stop Empty) Unit)
  | .generate seed => do
    match seed.orElse fun _ => s.seed with
    | some n => showGenerated h n
    | none => do showGenerated h (← h.entropy)
  | .solve path => do
    match ← load h path with
    | .error e => return .error e
    | .ok ps => runAll h s (fun r => .ofRules r) () ps

/-- Runs the program on its command line. -/
def execute (h : Host m) (s : Settings) (args : List String) : m (Except (Stop Empty) Unit) := do
  match ofArgs? args with
  | some c => c.perform h s
  | none => do
    h.tell (usage ++ "\n")
    return .error (.exit 1)

end Command

end GridFill
