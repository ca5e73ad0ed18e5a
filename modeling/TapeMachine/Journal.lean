import TapeMachine.Clock
import TapeMachine.FileTree
import TapeMachine.Json.Writer
import TapeMachine.Result

/-!
# Journals

A journal is a directory of log files with one JSON value per line. A result is written to the main
log, and to the log of its verdict.

## Main statements

* `Journal.logText_append` — entries written one after the other are written together
-/

namespace TapeMachine

/-- Where log lines go. -/
structure Journal where
  directory : String
  filePrefix : String
  /-- Whether the main log's name has the date. -/
  dated : Bool
  today : String
  deriving DecidableEq, Repr

namespace Journal

variable [Host]

/-! ## Paths -/

def mainLog (j : Journal) : String :=
  Path.join j.directory (j.filePrefix ++ (if j.dated then j.today else "") ++ ".jsonl")

/-- The path of the log of accepted inputs. -/
def acceptedLog (j : Journal) : String :=
  Path.join j.directory ("accepted_" ++ j.today ++ ".jsonl")

/-- The path of the log of rejected inputs. -/
def rejectedLog (j : Journal) : String :=
  Path.join j.directory ("rejected_" ++ j.today ++ ".jsonl")

/-- The path of the log of a verdict. -/
def verdictLog (j : Journal) (accepted : Bool) : String :=
  if accepted then j.acceptedLog else j.rejectedLog

/-! ## Opening -/

def start (t : FileTree) (directory filePrefix : String) (dated : Bool) (now : Moment) :
    Except FileFault Journal × FileTree :=
  match t.makeDirectories directory with
  | (.error e, t) => (.error e, t)
  | (.ok (), t) => (.ok { directory, filePrefix, dated, today := now.date }, t)

/-! ## Writing -/

def logText (entries : List Json) : String := String.join (entries.map fun e => e.write ++ "\n")

/-- Writes entries at the end of a log. -/
def appendTo (t : FileTree) (path : String) (entries : List Json) : Except FileFault FileTree :=
  t.append path (logText entries)

/-- Writes entries at the end of the main log. -/
def log (j : Journal) (t : FileTree) (entries : List Json) : Except FileFault FileTree :=
  appendTo t j.mainLog entries

/-- The entry of a run: the program, the input, the time, and the fields of the result. -/
def entryOf (program input : Json) (result : List (String × Json)) (now : Moment) : Json :=
  .object ([("program", program), ("input", input), ("timestamp", .string now.stamp)] ++ result)

/-- The fields of a result in an entry. -/
def resultFields (r : Result) : List (String × Json) :=
  [("tape", .string r.tape), ("head", .int r.head), ("accepted", .bool r.accepted),
    ("steps", .int r.steps)]

def resultEntry (program : Option String) (input : String) (r : Result) (now : Moment) : Json :=
  entryOf ((program.map Json.string).getD .null) (.string input) (resultFields r) now

/-- Writes an entry to the main log, then to the log of its verdict. -/
def logVerdict (j : Journal) (t : FileTree) (entry : Json) (accepted : Bool) :
    Except FileFault Json × FileTree :=
  match j.log t [entry] with
  | .error e => (.error e, t)
  | .ok t =>
    match appendTo t (j.verdictLog accepted) [entry] with
    | .error e => (.error e, t)
    | .ok t => (.ok entry, t)

/-- Writes the entry of a result to the main log, then to the log of its verdict. -/
def logResult (j : Journal) (t : FileTree) (program : Option String) (input : String) (r : Result)
    (now : Moment) : Except FileFault Json × FileTree :=
  j.logVerdict t (resultEntry program input r now) r.accepted

omit [Host] in
theorem logText_append (a b : List Json) : logText (a ++ b) = logText a ++ logText b := by
  simp [logText]

end Journal

end TapeMachine
