/-
# `GridFill.Runner.Tree` — paths, and a tree of files in memory

A path is a sequence of names, from the root or from the working directory.
Empty names and single points say nothing and are left out when a path is read.

The tree is what lies below a working directory: its directories and the bytes
of its files, by resolved path.  Above the working directory there are
directories only.
-/
namespace GridFill

/-! ## Paths -/

/-- The names of a path, and whether it starts at the root. -/
structure Path where
  absolute : Bool := false
  names : List String
deriving DecidableEq

namespace Path

/-- Reads a path. -/
def ofString (s : String) : Path where
  absolute := s.toList.head? = some '/'
  names :=
    ((s.toList.splitOnP (· = '/')).filter fun n => !n.isEmpty && n ≠ ['.']).map String.ofList

/-- The path of one path inside another; a path from the root stands alone. -/
def join (p q : Path) : Path :=
  if q.absolute then q else { p with names := p.names ++ q.names }

/-- A path as text. -/
def text (p : Path) : String :=
  if p.absolute then "/" ++ String.intercalate "/" p.names
  else if p.names.isEmpty then "."
  else String.intercalate "/" p.names

/-- Goes up or down by one name; below the root there is no way up. -/
def step (absolute : Bool) (at_ : List String) (name : String) : List String :=
  if name = ".." then
    match at_.getLast? with
    | none => if absolute then [] else [".."]
    | some last => if last = ".." then at_ ++ [".."] else at_.dropLast
  else at_ ++ [name]

/-- The path with every way up taken, as far as the working directory is known. -/
def resolve (p : Path) : Path :=
  { p with names := p.names.foldl (step p.absolute) [] }

/-- The last name of a path. -/
def name (p : Path) : String := p.names.getLastD ""

/-- The last name without its suffix: the part from the last point on, unless
that point is at either end of the name. -/
def stem (p : Path) : String :=
  let cs := p.name.toList
  let tail := cs.reverse.takeWhile (· ≠ '.')
  let front := (cs.reverse.dropWhile (· ≠ '.')).drop 1
  if tail.isEmpty || front.isEmpty then p.name else String.ofList front.reverse

end Path

/-! ## Files -/

/-- Why a file could not be read or written. -/
inductive FileFault where
  | notFound
  | isDirectory
  | notDirectory
  | occupied
  | undecodable
deriving DecidableEq

/-- Directories and files. The latest state of a file comes first. -/
structure Tree where
  directories : List Path := []
  files : List (Path × ByteArray) := []

namespace Tree

/-- The bytes of a file. -/
def file? (t : Tree) (p : Path) : Option ByteArray :=
  (t.files.find? fun f => f.1 = p).map (·.2)

/-- The directories that hold a path, the outermost first. -/
def above (p : Path) : List Path :=
  (List.range p.names.length).map fun n => { p with names := p.names.take n }

/-- Whether a path is that of a directory. -/
def isDirectory (t : Tree) (p : Path) : Bool :=
  p.names.all (· = "..") || t.directories.contains p ||
    t.files.any fun f => (above f.1).contains p

/-- Whether one of the directories that would hold a path is a file. -/
def isBlocked (t : Tree) (p : Path) : Bool :=
  (above p).any fun d => (t.file? d).isSome

/-- Reads a file. -/
def read (t : Tree) (p : Path) : Except FileFault ByteArray :=
  let p := p.resolve
  match t.file? p with
  | some bytes => .ok bytes
  | none =>
    if t.isBlocked p then .error .notDirectory
    else if t.isDirectory p then .error .isDirectory
    else .error .notFound

/-- Makes a directory and those that hold it, unless they are there. -/
def makeDirectory (t : Tree) (p : Path) : Except FileFault Tree :=
  let p := p.resolve
  if t.isBlocked p then .error .notDirectory
  else if (t.file? p).isSome then .error .occupied
  else .ok { t with directories := (above p ++ [p]) ++ t.directories }

/-- Writes a file, in place of an earlier one. -/
def write (t : Tree) (p : Path) (bytes : ByteArray) : Except FileFault Tree :=
  let p := p.resolve
  if t.isBlocked p then .error .notDirectory
  else if t.isDirectory p then .error .isDirectory
  else .ok { t with files := (p, bytes) :: t.files.filter fun f => f.1 ≠ p }

end Tree

end GridFill
