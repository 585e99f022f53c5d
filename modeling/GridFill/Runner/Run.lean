/-
# `GridFill.Runner.Run` — running puzzles with a log for each

A run announces the puzzle and its log file, solves the puzzle, and writes the
log, also when the solving fails.  The user may interrupt it; that is written to
the log and ends the program with status one.
-/
import GridFill.Puzzle.File
import GridFill.Runner.Host
import GridFill.Runner.Solve

namespace GridFill.Runner

open Search

/-- Why a program ends early. -/
inductive Stop (ε : Type) where
  /-- It asks to end with a status. -/
  | exit (status : Nat)
  | fault (f : Fault)
  | file (f : FileFault)
  | raised (e : ε)

/-- A failure of a judge, or the wish of the user to stop. -/
inductive Interruptible (ε : Type) where
  | interrupted
  | failed (e : ε)

/-- What is shown and logged when the user interrupts. -/
def interruption : String := "Solver interrupted by user."

variable {m : Type → Type} [Monad m] {σ ε : Type}

/-- The log file of a puzzle. -/
def logPath (s : Settings) (p : Puzzle) : Path :=
  (Path.ofString s.logDir).join (.ofString (p.name ++ ".log"))

/-- What follows a solved puzzle: the rest of the transcript and the outcome. -/
def conclude (r : Except (SearchFault (Interruptible ε)) Bool × Transcript) :
    Except (Stop ε) Bool × Transcript :=
  match r with
  | (.ok solved, t) =>
    (.ok solved, (t.tell (if solved then "Solution found!" else "No solution found.")).tell "")
  | (.error (.raised .interrupted), t) => (.error (.exit 1), t.announce interruption)
  | (.error (.raised (.failed e)), t) => (.error (.raised e), t)
  | (.error (.fault f), t) => (.error (.fault f), t)

/-- Runs one puzzle; the answer is whether a solution was found. -/
def run (h : Host m) (s : Settings) (j : Rules → Judge σ (Interruptible ε)) (memory : σ)
    (p : Puzzle) : m (Except (Stop ε) Bool) := do
  let path := logPath s p
  h.tell (s!"config: {p.text}\n" ++ s!"Log file: {path.text}\n")
  match ← h.openLog path with
  | .error f => return .error (.file f)
  | .ok _ =>
    let (r, stamps) ← h.timed fun _ => conclude (solvePuzzle s (j p.rules) memory p).run
    h.appendLog path (r.2.logText stamps)
    h.tell r.2.shownText
    return r.1

/-- Runs puzzles one after the other, until one ends the program. -/
def runAll (h : Host m) (s : Settings) (j : Rules → Judge σ (Interruptible ε)) (memory : σ) :
    List Puzzle → m (Except (Stop ε) Unit)
  | [] => return .ok ()
  | p :: ps => do
    match ← run h s j memory p with
    | .error e => return .error e
    | .ok _ => runAll h s j memory ps

/-- Loads the puzzles of a file. -/
def load (h : Host m) (path : Path) : m (Except (Stop ε) (List Puzzle)) := do
  match ← h.readFile path with
  | .error f => return .error (.file f)
  | .ok (bytes, shown) =>
    match String.fromUTF8? bytes with
    | none => return .error (.file .undecodable)
    | some text =>
      match Puzzle.ofFile shown path.resolve.stem text.toList with
      | .error f => return .error (.fault f)
      | .ok ps => return .ok ps

end GridFill.Runner
