/-
# `GridFill.Runner.Transcript` — what a run says

A run writes a log and shows some lines on the screen.  Moments in time are not
known to the run itself: where one belongs the log has an entry for it, and its
text is filled in when the log is written.
-/
import GridFill.Search.Plan

namespace GridFill.Runner

open Search

/-- A line of a log. -/
inductive Entry where
  | line (text : String)
  /-- The moment at which the search starts. -/
  | started
  /-- A progress report. -/
  | progress (r : Report)
  /-- The end of the search, with its tally and the time elapsed. -/
  | finished (t : Tally)

/-- The texts of the start and of the time elapsed since. -/
structure Stamps where
  start : String
  elapsed : String

/-- A log entry as text. -/
def Entry.text (s : Stamps) : Entry → String
  | line t => t
  | started => s!"Start time: {s.start}"
  | progress r => r.line s.elapsed
  | finished t =>
    s!"Nodes: {Text.withCommas t.nodes}, validations: {Text.withCommas t.validations}, " ++
      s!"time: {s.elapsed}"

/-- The log entries and the lines shown so far. -/
structure Transcript where
  log : Array Entry := #[]
  shown : Array String := #[]

namespace Transcript

/-- Adds a line to the log. -/
def note (text : String) (t : Transcript) : Transcript :=
  { t with log := t.log.push (.line text) }

/-- Adds an entry to the log. -/
def enter (e : Entry) (t : Transcript) : Transcript := { t with log := t.log.push e }

/-- Adds the reports of a search to the log. -/
def report (rs : Array Report) (t : Transcript) : Transcript :=
  { t with log := t.log ++ rs.map .progress }

/-- Shows a line. -/
def tell (text : String) (t : Transcript) : Transcript :=
  { t with shown := t.shown.push text }

/-- Adds a line to the log and shows it. -/
def announce (text : String) (t : Transcript) : Transcript := (t.note text).tell text

end Transcript

/-- Lines, each with its end. -/
def closeLines (ls : Array String) : String :=
  String.join (ls.toList.map (· ++ "\n"))

/-- A log as text. -/
def Transcript.logText (t : Transcript) (s : Stamps) : String :=
  closeLines (t.log.map (Entry.text s))

/-- The lines shown, as text. -/
def Transcript.shownText (t : Transcript) : String := closeLines t.shown

end GridFill.Runner
