import TapeMachine.CommandLine
import Std.Time.DateTime.Timestamp

/-!
# The program

The outer layer: it takes the files below the working directory as a value, calls the library, writes
back what changed and prints the output. `simulate` as the first argument runs a campaign, `inspect`
shows a program as a table, anything else goes to the shell.
-/

namespace TapeMachine.Terminal

/-- The files and directories below a directory, added to a tree. Links are not followed, so that the
walk ends; a file that may not be read counts as not there. -/
partial def readTree (directory : String) (l : Location) (t : FileTree) : IO FileTree := do
  let mut t := t
  for entry in ← (← IO.FS.realPath directory).readDir do
    let place := l ++ [entry.fileName]
    match (← entry.path.symlinkMetadata).type with
    | .dir => t ← readTree entry.path.toString place (t.put place .directory)
    | .file =>
      match ← (IO.FS.readBinFile entry.path).toBaseIO with
      | .ok bytes => t := t.put place (.file bytes)
      | .error _ => pure ()
    | _ => pure ()
  return t

/-- Writes the directories and files of a tree that another does not have. -/
def writeTree [Host] (old new : FileTree) : IO Unit := do
  for path in new.directories do
    IO.FS.createDirAll path
  for (path, bytes) in FileTree.changes old new do
    IO.FS.writeBinFile path bytes

def readClock : IO Moment := do
  let nanoseconds := (← Std.Time.Timestamp.now).toNanosecondsSinceUnixEpoch.toInt.toNat
  return Moment.ofUnix (nanoseconds / 1000000000) (nanoseconds % 1000000000 / 1000)

/-- The host with the directory in which the program works. -/
def readHost : IO Host := do
  let home := (← IO.FS.realPath ".").toString
  return { Host.usual with home := (home.splitOn "/").filter (· ≠ "") }

/-- Does a task on the files below the working directory, and shows what it says. Nothing is written
if the task would write elsewhere: what is there was not read. -/
def doTask [Host] {ε α : Type} (task : Task ε α) : IO (Except ε α) := do
  let old ← readTree "." Host.home FileTree.empty
  let (r, desk) := task.on ⟨old, #[]⟩
  match desk.tree.outside with
  | [] => writeTree old desk.tree
  | path :: _ => throw (IO.userError s!"Not below the working directory: {path}")
  for e in desk.console do
    IO.print e.shown
  return r

/-- Does the lines that the user types until the session ends. -/
partial def talk [Host] (s : Session) : IO (Except CommandLine.Failure Unit) := do
  IO.print ">>> "
  (← IO.getStdout).flush
  let line ← (← IO.getStdin).getLine
  if line.isEmpty then return .ok ()
  let now ← readClock
  let turn : Task Session.Failure Session := fun desk =>
    let (r, w) := Session.dispatch now (Text.trimmed line) ⟨s, desk⟩
    (r.map fun _ => w.session, w.desk)
  match ← doTask turn with
  | .error f => return .error (.session f)
  | .ok s => if s.running then talk s else return .ok ()

/-- Runs a shell, on a script or with the user. -/
def runShell [Host] (args : List String) : IO (Except CommandLine.Failure Unit) := do
  let now ← readClock
  match ← doTask (CommandLine.openSession args now) with
  | .error f => return .error f
  | .ok (s, []) => IO.print Session.greeting.shown; talk s
  | .ok (s, commands) => doTask (CommandLine.script s commands now)

end TapeMachine.Terminal

open TapeMachine TapeMachine.Terminal in
/-- Does what the arguments ask for; the number with which the program ends. -/
def main (args : List String) : IO UInt32 := do
  let now ← readClock
  let _host ← readHost
  let outcome ← match args with
    | "simulate" :: rest => doTask ((fun _ => ()) <$> CommandLine.campaign rest now)
    | "inspect" :: rest => doTask (CommandLine.inspect rest)
    | args => runShell args
  match outcome with
  | .ok () => return 0
  | .error f =>
    IO.eprintln f.message
    return UInt32.ofNat f.code
