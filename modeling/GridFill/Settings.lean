/-
# `GridFill.Settings` — settings of a run

Every setting has a default and may be given by a variable whose name is `stem`
and the name of the setting, in any case.  Variables come from the environment
and from a file of `NAME=value` lines; the environment wins.  The file may not
hold other variables; the environment may.
-/
import GridFill.Text.Numeral
import GridFill.Text.Basic

namespace GridFill

/-- The seed of random choices, the number of frames between two reports, and
the directory of the logs. -/
structure Settings where
  seed : Option Int := none
  reportInterval : Int := 100000
  logDir : String := "logs"
deriving DecidableEq

namespace Settings

/-- A text, or the word for its absence. -/
def showSeed : Option Int → String
  | none => "None"
  | some n => toString n

/-- The settings on one line. -/
def text (s : Settings) : String :=
  s!"\x7b'seed': {showSeed s.seed}, 'report_interval': {s.reportInterval}, " ++
    s!"'log_dir': {Text.quoted s.logDir}\x7d"

/-! ## Whole numbers in variables -/

/-- Whether a character is one of the ten ASCII digits. -/
def isAsciiDigit (c : Char) : Bool := '0' ≤ c && c ≤ '9'

/-- Whether digits follow each other with at most one underscore between two of
them, starting and ending with a digit. -/
def isDigitRun (s : List Char) : Bool :=
  (s.splitOnP (· = '_')).all fun part => !part.isEmpty && part.all isAsciiDigit

/-- The part of a decimal text before a fraction that is zero. -/
def dropZeroFraction (s : List Char) : List Char :=
  let fraction := s.dropWhile (· ≠ '.')
  if fraction.drop 1 |>.all (· = '0') then s.takeWhile (· ≠ '.') else s

/-- Why the text of a variable is refused. -/
inductive Complaint where
  | notInteger
  | tooLong
  | notPositive
  | unknown
deriving DecidableEq

/-- The kind of a complaint, in one word. -/
def Complaint.kind : Complaint → String
  | notInteger => "int_parsing"
  | tooLong => "int_parsing_size"
  | notPositive => "greater_than"
  | unknown => "extra_forbidden"

/-- Reads the digits of a number and applies its sign. -/
def readDigits (negative : Bool) (s : List Char) : Except Complaint Int :=
  let s := dropZeroFraction s
  if isDigitRun s then
    let n : Int := (s.filter isAsciiDigit).foldl (fun n c => 10 * n + (c.toNat - '0'.toNat : Nat)) 0
    .ok (if negative then -n else n)
  else .error .notInteger

/-- Reads a whole number in ASCII digits: blanks around it, one sign, single
underscores between digits, and a fraction of zeros. -/
def readInteger (text : String) : Except Complaint Int :=
  if Text.maxDigits < text.utf8ByteSize then .error .tooLong
  else
    match Text.trim text.toList with
    | '-' :: s => readDigits true s
    | '+' :: s => readDigits false s
    | s => readDigits false s

/-! ## Variables -/

/-- Names and their texts. -/
abbrev Variables := List (String × String)

/-- What the names of all settings begin with. -/
def stem : String := "gridcsp_"

/-- The names of the settings. -/
def fields : List String := ["seed", "report_interval", "log_dir"]

/-- A name in lower case. -/
def lower (name : String) : String := name.map Char.toLower

/-- The text of a variable, the last one if it is given twice. -/
def find? (vs : Variables) (field : String) : Option String :=
  (vs.reverse.find? fun v => lower v.1 = stem ++ field).map (·.2)

/-- Whether nothing but blanks or a comment is left of a line. -/
def isRemark (s : List Char) : Bool :=
  match s.dropWhile Text.isBlank with
  | [] => true
  | c :: _ => c = '#'

/-- The part of a line before a comment, which starts with a `#` after a blank. -/
def beforeRemark : List Char → List Char
  | [] => []
  | c :: s => if Text.isBlank c && isRemark s then [] else c :: beforeRemark s

/-- The value that stands behind a `=`: the text between two quotes, with only a
comment after it, or else everything up to a comment. -/
def value? (s : List Char) : Option (List Char) :=
  match s with
  | [] => some []
  | q :: s' =>
    if q = '"' || q = '\'' then
      match s'.dropWhile (· ≠ q) with
      | [] => none
      | _ :: rest => if isRemark rest then some (s'.takeWhile (· ≠ q)) else none
    else some (beforeRemark s)

/-- The name in front of a `=`: a single word, to which `export` may be added. -/
def name? (s : List Char) : Option String :=
  match (Text.words s).map String.ofList with
  | [n] => some n
  | ["export", n] => some n
  | _ => none

/-- The variable of a `NAME=value` line; blank lines and comments have none. -/
def assignment? (line : List Char) : Option (String × String) :=
  match Text.trim line with
  | [] => none
  | '#' :: _ => none
  | s =>
    match s.dropWhile (· ≠ '=') with
    | [] => none
    | _ :: rest => do
      let name ← name? (s.takeWhile (· ≠ '='))
      let value ← value? (Text.trim rest)
      return (name, String.ofList value)

/-- The variables of a file of `NAME=value` lines. -/
def ofFile (text : String) : Variables :=
  (Text.lines text.toList).filterMap assignment?

/-- The complaints about the variables of a file that name no setting. A name
without a value, or of a setting without what settings begin with, is passed
over. -/
def strangers (file : Variables) : List (String × Complaint) :=
  let names := (file.filter fun v => v.2 ≠ "").map fun v => lower v.1
  let known := fields ++ fields.map (stem ++ ·)
  (names.filter fun n => !known.contains n).eraseDups.map fun n => (n, .unknown)

/-- The settings given by the environment and a file, or all complaints, those
about settings first and in their order. -/
def read (environment file : Variables) : Except (List (String × Complaint)) Settings :=
  let text? := fun field => (find? environment field).orElse fun _ => find? file field
  let seed : Except Complaint (Option Int) :=
    match text? "seed" with
    | none => .ok none
    | some s => (readInteger s).map some
  let interval : Except Complaint Int :=
    match text? "report_interval" with
    | none => .ok 100000
    | some s =>
      match readInteger s with
      | .ok n => if n < 1 then .error .notPositive else .ok n
      | .error c => .error c
  let logDir := (text? "log_dir").getD "logs"
  match seed, interval, strangers file with
  | .ok seed, .ok interval, [] =>
    .ok { seed := seed, reportInterval := interval, logDir := logDir }
  | seed, interval, others =>
    let complaints : List (String × Complaint) :=
      (match seed with | .error c => [("seed", c)] | .ok _ => []) ++
        (match interval with | .error c => [("report_interval", c)] | .ok _ => [])
    .error (complaints ++ others)

end Settings

end GridFill
