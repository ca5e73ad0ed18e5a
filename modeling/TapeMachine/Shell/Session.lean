import TapeMachine.Desk
import TapeMachine.Journal
import TapeMachine.Machine
import TapeMachine.Settings
import TapeMachine.Shell
import TapeMachine.Text.Integer

/-!
# Sessions

A session is what the shell remembers from one line to the next: the machine that was loaded, the
last result, and whether it goes on. A line is read, its command is done, and the outcome says
whether a command was done. A session can be told values of any kind; one of the wrong kind makes
itself felt only where it is used.

## Main statements

* `Session.Options.ofOverlay_toOverlay` — settings that were checked reach a session as they are
* `Session.run_blank` — an empty line changes nothing
-/

namespace TapeMachine

/-- What the shell remembers. -/
structure Session where
  /-- The size of a tape, unless a line asks for another. -/
  tapeSize : Json
  machine : Option Machine
  /-- The path of the program of the loaded machine. -/
  program : Option String
  lastResult : Option Result
  /-- Whether steps are shown: if it counts as true. -/
  verbose : Json
  running : Bool
  journal : Option Journal

namespace Session

/-- A session together with the desk that it works on. -/
structure World where
  session : Session
  desk : Desk

/-- Why a line cannot be finished. -/
inductive Failure where
  | file (f : FileFault)
  /-- The machine never halts. -/
  | endless
  /-- A value of another kind is wanted. -/
  | wrongKind
  /-- A tape is wanted that no memory holds. -/
  | beyondMemory (size : Int)
  /-- The console refuses a text for the marks in it. -/
  | brokenMarks
  deriving DecidableEq, Repr

/-- Work within a session; what it did before it failed stays done. -/
abbrev Act (α : Type) := ExceptT Failure (StateM World) α

/-- The commands of the shell. -/
inductive Verb where
  | load
  | run
  | debug
  | dump
  | help
  | exit
  deriving DecidableEq, Repr

/-! ## Beginning -/

/-- What a session is told. -/
structure Options where
  tapeSize : Json
  verbose : Json
  logResults : Json
  outputDirectory : Json
  logPrefix : Json

namespace Options

/-- What fields tell a session; the defaults stand for those that are missing. -/
def ofOverlay (o : Settings.Overlay) : Options :=
  let field (key : String) (default : Json) : Json := (o.find? (.name key)).getD default
  { tapeSize := field "tape_size" (.int Settings.default.tapeSize)
    verbose := field "verbose" (.bool Settings.default.verbose)
    logResults := field "log_results" (.bool Settings.default.logResults)
    outputDirectory := field "output_directory" (.string Settings.default.outputDirectory)
    logPrefix := field "log_file_prefix" (.string Settings.default.logPrefix) }

def ofSettings (s : Settings) : Options where
  tapeSize := .int s.tapeSize
  verbose := .bool s.verbose
  logResults := .bool s.logResults
  outputDirectory := .string s.outputDirectory
  logPrefix := .string s.logPrefix

theorem ofOverlay_toOverlay (s : Settings) : ofOverlay s.toOverlay = ofSettings s := rfl

end Options

/-- The journal that a session is told to keep, with its directory made. -/
def openJournal [Host] (o : Options) (now : Moment) : Task Failure (Option Journal) :=
  if o.logResults.truth then
    match o.outputDirectory with
    | .string directory => (some <$> Task.onTree fun t =>
        Journal.start t directory o.logPrefix.plain true now).mapFailure .file
    | _ => throw .wrongKind
  else return none

/-- A session with nothing loaded. -/
def new [Host] (o : Options) (now : Moment) : Task Failure Session := do
  let journal ← openJournal o now
  return { tapeSize := o.tapeSize, machine := none, program := none, lastResult := none,
           verbose := o.verbose, running := true, journal }

/-! ## Parts of commands -/

def current : Act Session := fun w => (.ok w.session, w)

def change (f : Session → Session) : Act Unit :=
  fun w => (.ok (), { w with session := f w.session })

def atDesk {α : Type} (task : Task FileFault α) : Act α := fun w =>
  let (r, desk) := task w.desk
  (r.mapError .file, { w with desk })

/-- Shows something, unless the console refuses it. -/
def say [Host] (e : Event) : Act Unit :=
  if Host.takes e then atDesk (Task.say e) else throw .brokenMarks

/-- Shows lines in which brackets are text, which no console refuses. -/
def sayLines (es : List Event) : Act Unit := atDesk (Task.sayAll es)

/-- The number that an argument is, or what is said if it is none. -/
def readNumber (arg name : String) : Except Event Int :=
  match Text.integer? arg with
  | some n => .ok n
  | none => .error (.marked s!"[red]Error in argument \x60{name}\x60 - Not an integer: {arg}[/red]")

/-- What is shown of a step in a verbose run. -/
def stepEvents (c : Configuration) (cell : Symbol) (t : Transition) : List Event :=
  [.plain c.render, .plain (Int.repr t.line ++ ". " ++ c.state.ruleText cell t)]

def traceEvents (m : Machine) (start final : Configuration) : List Event :=
  (traceBetween stepEvents m.program start final).flatten

/-! ## Commands -/

/-- All commands, in the order in which they are listed. -/
def commands : List (Shell.Command Verb) := [
  ⟨"load", 2, 2, "load <filename> <alphabet>", "Loads a program to later be run or debugged", .load⟩,
  ⟨"run", 0, 2, "run [tape contents] [memory size]", "Runs the currently loaded program", .run⟩,
  ⟨"debug", 1, 1, "debug <on|off>", "Toggles debug mode", .debug⟩,
  ⟨"dump", 0, 0, "dump", "Outputs the current program to a string", .dump⟩,
  ⟨"help", 0, 0, "help", "Displays all the available commands", .help⟩,
  ⟨"exit", 0, 0, "exit", "Exits the REPL", .exit⟩]

section

variable [Host]

/-- Loads the program at a path as a machine over an alphabet. -/
def load (file alphabet : String) : Act Unit := do
  let path := Path.tidy file
  let tree ← atDesk Task.tree
  let there ← atDesk (Task.ofExcept (tree.probe path))
  if !there then
    say (.marked s!"[red]Error in argument \x60filename\x60 - File not found: {path}[/red]")
  else
    let source ← atDesk (Task.ofExcept (tree.readText path))
    match Machine.compile source (Alphabet.itemsOf alphabet) with
    | .error e => say (.styled "red" ("Error instantiating Turing Machine: " ++ e.message))
    | .ok m =>
      change fun s => { s with machine := some m, program := some path }
      say (.marked s!"[green]Loaded {path} ({m.program.states.length} states).[/green]")

/-- Writes a result to the journal, if there is one. -/
def logResult (input : String) (r : Result) (now : Moment) : Act Unit := do
  let s ← current
  match s.journal with
  | none => return
  | some j =>
    let _ ← atDesk (Task.onTree fun t => j.logResult t s.program input r now)
    return

/-- Runs a machine on a fresh tape, and shows and keeps its result. -/
def runMachine (m : Machine) (input : String) (size : Int) (now : Moment) : Act Unit := do
  if (Host.mostCells : Int) < size then throw (.beyondMemory size)
  match m.begin input size 0 with
  | .error e => say (.styled "red" e.message)
  | .ok start =>
    -- the run is followed to its end first, and then shown step by step
    let (final, status) := TapeMachine.run m.program start
    if status = .running then throw .endless
    if (← current).verbose.truth then sayLines (traceEvents m start final)
    match status with
    | .running => return
    | .failed fault => say (.styled "red" (fault.message final))
    | .halted accepted =>
      let r := Result.ofFinal final accepted
      -- the result is kept even if it cannot be logged
      change fun s => { s with lastResult := some r }
      say (.plain r.describe)
      logResult input r now

/-- What comes of a size that is not a whole number: it may be found too small, but no tape has it. -/
def refuseSize (input : String) (size : Json) : Act Unit :=
  match size.compareInt? 0, size.compareInt? (input.length + 1) with
  | some .lt, _ | some .eq, _ => say (.styled "red" (TapeError.sizeMessage size.display))
  | _, some .lt => say (.styled "red" TapeError.tooSmall.message)
  | _, _ => throw .wrongKind

/-- Runs the loaded machine; the arguments are the tape's contents and its size. -/
def runCommand (args : List String) (now : Moment) : Act Unit := do
  let s ← current
  match s.machine with
  | none => say (.marked "[red]No Turing machine loaded[/red]")
  | some m =>
    match args with
    | input :: size :: _ =>
      match readNumber size "memory size" with
      | .error e => say e
      | .ok size => runMachine m input size now
    | args =>
      match s.tapeSize with
      | .int size => runMachine m (args.headD "") size now
      | size => refuseSize (args.headD "") size

/-- Turns the showing of steps on or off. -/
def debug (word : String) : Act Unit :=
  if word = "on" then change fun s => { s with verbose := .bool true }
  else if word = "off" then change fun s => { s with verbose := .bool false }
  else say (.plain "Usage: debug <on|off>")

/-- Shows the rules of the loaded machine that a run can reach. -/
def dump : Act Unit := do
  match (← current).machine with
  | none => say (.marked "[red]No program to dump[/red]")
  | some m => say (.raw m.dump)

def help : Act Unit :=
  sayLines (commands.map fun c => .plain (c.usage ++ "\n  " ++ c.description))

def exit : Act Unit := do
  say (.marked "[bold green]Goodbye![/bold green]")
  change fun s => { s with running := false }

def perform (now : Moment) : Verb → List String → Act Unit
  | .load, args => load (args.headD "") ((args.drop 1).headD "")
  | .run, args => runCommand args now
  | .debug, args => debug (args.headD "")
  | .dump, _ => dump
  | .help, _ => help
  | .exit, _ => exit

/-- Does what a line says; whether a command was done. -/
def dispatch (now : Moment) (line : String) : Act Bool :=
  match Shell.select commands line with
  | .act verb args => do perform now verb args; return true
  | .refuse none => return false
  | .refuse (some e) => do say e; return false

end

theorem run_blank [Host] (now : Moment) (w : World) : dispatch now "" w = (.ok false, w) := rfl

/-! ## Whole sessions -/

/-- What a line of a script looks like when it is shown. -/
def echo (line : String) : Event := .plain s!">>> {line}"

def greeting : Event := .marked "[bold cyan]Turing Machine VM[/bold cyan]"

section

variable [Host]

/-- Does lines one after the other until the session ends, each after a first part. -/
def runLines (now : Moment) (before : String → Act Unit) (clean : String → String) :
    List String → Act Unit
  | [] => return
  | line :: rest => do
    before line
    let _ ← dispatch now (clean line)
    if (← current).running then runLines now before clean rest else return

def interactive (now : Moment) (lines : List String) : Act Unit := do
  say greeting
  if (← current).running then runLines now (fun _ => pure ()) Text.trimmed lines else return

/-- Does the lines of a script, showing each. -/
def scripted (now : Moment) (lines : List String) : Act Unit := do
  say greeting
  runLines now (fun line => say (echo line)) id lines

end

end Session

end TapeMachine
