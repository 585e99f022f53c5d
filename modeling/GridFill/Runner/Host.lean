/-
# `GridFill.Runner.Host` — what a run needs from its surroundings

A run shows text, reads puzzle files, and writes logs.  `Host` lists these
services over any monad, so that the same run works on a real file system and
on a tree in memory (`Desk`).
-/
import GridFill.Runner.Transcript
import GridFill.Runner.Tree

namespace GridFill.Runner

/-- The services of the surroundings. -/
structure Host (m : Type → Type) where
  /-- Shows text. -/
  tell : String → m Unit
  /-- Reads a file, and says by which path it is known. -/
  readFile : Path → m (Except FileFault (ByteArray × String))
  /-- Opens an empty log, making the directory for it. -/
  openLog : Path → m (Except FileFault Unit)
  /-- Puts text at the end of a log. -/
  appendLog : Path → String → m Unit
  /-- Does some work and measures the time it takes. -/
  timed : {α : Type} → (Unit → α) → m (α × Stamps)
  /-- A number that nobody can foresee. -/
  entropy : m Nat

/-- Surroundings in memory: files, the names of the logs written, and the text
shown. -/
structure Desk where
  tree : Tree := {}
  logs : List Path := []
  shown : String := ""

namespace Desk

/-- The path of the directory that holds a file. -/
def parent (p : Path) : Path := { p with names := p.names.dropLast }

/-- Opens an empty log in the tree. -/
def openLog (p : Path) (d : Desk) : Except FileFault Unit × Desk :=
  match d.tree.makeDirectory (parent p) with
  | .error e => (.error e, d)
  | .ok tree =>
    match tree.write p .empty with
    | .error e => (.error e, { d with tree := tree })
    | .ok tree => (.ok (), { d with tree := tree, logs := p.resolve :: d.logs })

/-- Puts text at the end of a log in the tree. -/
def appendLog (p : Path) (text : String) (d : Desk) : Desk :=
  let before := (d.tree.file? p.resolve).getD .empty
  match d.tree.write p (before ++ text.toUTF8) with
  | .ok tree => { d with tree := tree }
  | .error _ => d

/-- The services of a tree in memory; moments in time have the given texts. -/
def host (stamps : Stamps) : Host (StateM Desk) where
  tell text := modify fun d => { d with shown := d.shown ++ text }
  readFile p := do
    return ((← get).tree.read p).map fun bytes => (bytes, p.resolve.text)
  openLog p := modifyGet (openLog p)
  appendLog p text := modify (appendLog p text)
  timed work := pure (work (), stamps)
  entropy := pure 0

end Desk

end GridFill.Runner
