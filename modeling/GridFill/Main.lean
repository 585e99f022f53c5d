/-
# `GridFill.Main` — the program

The outer layer: the services of the surroundings on the real file system, and
the reading of settings.  All that is decided is decided in `GridFill.Command`.
-/
import GridFill.Clock.Basic
import GridFill.Command

namespace GridFill

open Runner

/-- What a failed reading or writing of a file means. -/
def fileFault : IO.Error → FileFault
  | .inappropriateType .. => .isDirectory
  | .alreadyExists .. => .occupied
  | _ => .notFound

/-- A number of milliseconds as clock text. -/
def millisText (ms : Nat) : String :=
  (Clock.text (.exact ((ms : Rat) / 1000))).toOption.getD ""

/-- The services of the real surroundings. Times are those of a clock that
started with the machine. -/
def realHost : Host IO where
  tell text := do
    let out ← IO.getStdout
    out.putStr text
    out.flush
  readFile p := do
    try
      let bytes ← IO.FS.readBinFile p.text
      let known ← IO.FS.realPath p.text
      return .ok (bytes, known.toString)
    catch e => return .error (fileFault e)
  openLog p := do
    try
      IO.FS.createDirAll (Desk.parent p).text
      IO.FS.writeFile p.text ""
      return .ok ()
    catch e => return .error (fileFault e)
  appendLog p text := do
    let log ← IO.FS.Handle.mk p.text .append
    log.putStr text
  timed work := do
    let start ← IO.monoMsNow
    let result := work ()
    let stop ← IO.monoMsNow
    return (result, { start := millisText start, elapsed := millisText (stop - start) })
  entropy := do
    let bytes ← IO.getRandomBytes 16
    return bytes.foldl (fun n b => 256 * n + b.toNat) 0

/-- The variables of the environment that name settings. -/
def environment : IO Settings.Variables := do
  let mut found := []
  for field in Settings.fields do
    let name := (Settings.stem ++ field).map Char.toUpper
    if let some value ← IO.getEnv name then
      found := found ++ [(name, value)]
  return found

/-- The variables of the file `.env`, if there is one. -/
def fileVariables : IO Settings.Variables := do
  try
    return Settings.ofFile (← IO.FS.readFile ".env")
  catch _ => return []

/-- Why a program ended early, as text for the user. -/
def stopText : Stop Empty → Option String
  | .exit _ => none
  | .fault f => some f.message
  | .file .notFound => some "No such file."
  | .file .isDirectory => some "This is a directory."
  | .file .notDirectory => some "There is a file where a directory should be."
  | .file .occupied => some "There is a file of that name."
  | .file .undecodable => some "The file does not hold text."

end GridFill

open GridFill in
/-- Runs the program and ends with its status. -/
def main (args : List String) : IO UInt32 := do
  match Settings.read (← environment) (← fileVariables) with
  | .error complaints =>
    for c in complaints do
      IO.eprintln s!"{c.1}: {c.2.kind}"
    return 1
  | .ok settings =>
    match ← Command.execute realHost settings args with
    | .ok _ => return 0
    | .error stop =>
      if let some text := stopText stop then IO.eprintln text
      return match stop with
        | .exit status => status.toUInt32
        | _ => 1
