import TapeMachine.Arguments
import TapeMachine.Batch.Draft
import TapeMachine.Inspector
import TapeMachine.Settings.Load
import TapeMachine.Shell.Session

/-!
# Command lines

The three things that can be asked for on a command line: a campaign over a file of inputs, a look at
a program as a table, and the shell.

## Main statements

* `CommandLine.settingsAt_missing` — without a settings file the defaults are used
* `CommandLine.commandsOf_some` — commands that all have a text are done one after the other
-/

namespace TapeMachine

namespace CommandLine

/-- Why a command line does not do what it asks for. -/
inductive Failure where
  | ending (e : Arguments.Ending)
  | settings (f : Settings.LoadFault)
  | campaign (f : Campaign.Failure)
  | file (f : FileFault)
  | compile (e : CompileError)
  | session (f : Session.Failure)
  /-- A switch was given without the value that is wanted. -/
  | noValue
  /-- A command was given without its text. -/
  | noCommand
  /-- The console refuses a text for the marks in it. -/
  | brokenMarks
  deriving Repr

namespace Failure

/-- What is said of a file that cannot be used. -/
def ofFile : FileFault → String
  | .notFound => "No such file or directory"
  | .isDirectory => "Is a directory"
  | .notDirectory => "Not a directory"
  | .taken => "File exists"
  | .nulInPath => "A path holds a NUL character"
  | .nameTooLong => "File name too long"
  | .tooDeep => "Too many directories to make"
  | .denied => "Permission denied"
  | .notText => "Not a UTF-8 text"

/-- What is said of a file that is not JSON. -/
def ofRead : Json.ReadFault → String
  | .malformed => "Not a JSON text"
  | .tooManyDigits => "A number has too many digits"
  | .tooDeep => "Too many lists and objects within each other"
  | .loneSurrogate => "Not a Unicode text"

def message : Failure → String
  | ending .help => "usage: [simulate | inspect] [switches]"
  | ending .badArguments => "error: bad arguments"
  | settings (.file f) => ofFile f
  | settings (.json f) => ofRead f
  | settings f => f.message?.getD "The settings file holds no fields"
  | campaign (.file f) => ofFile f
  | campaign (.compile e) => e.message
  | campaign (.json f) => ofRead f
  | campaign (.checkpoint _) => "The checkpoint holds no count"
  | campaign .brokenPosition => "The checkpoint is between two inputs"
  | campaign .emptyBatches => "Batches must not be empty"
  | campaign .countTooLong => "The checkpoint leaves too many inputs to count"
  | campaign .noValue => "A switch has no value"
  | campaign (.beyondMemory size) => s!"No memory holds a tape of {size} cells"
  | file f => ofFile f
  | compile e => e.message
  | session (.file f) => ofFile f
  | session .endless => "The machine never halts"
  | session .wrongKind => "A setting is of the wrong kind"
  | session (.beyondMemory size) => s!"No memory holds a tape of {size} cells"
  | session .brokenMarks => "A text has marks that do not match"
  | noValue => "A switch has no value"
  | noCommand => "A command has no text"
  | brokenMarks => "A text has marks that do not match"

def code : Failure → Nat
  | ending e => e.code
  | _ => 1

end Failure

/-- Shows something, unless the console refuses it. -/
def say [Host] (e : Event) : Task Failure Unit :=
  if Host.takes e then Task.say e else throw .brokenMarks

def arguments (g : Arguments.Signature) (args : List String) : Task Failure Arguments.Parsed :=
  Task.ofExcept ((Arguments.parse g args).mapError .ending)

section

variable [Host]

/-- The settings of the file at a path. -/
def loadSettings (path : String) : Task Failure Settings := do
  let (_, settings) ← Task.onTree fun t =>
    let (r, t) := Settings.load t path
    (r.mapError Failure.settings, t)
  return settings

/-- What is said of a settings file that is missing. -/
def missingSettings (path : String) : Event :=
  .marked s!"[yellow]No config at {path}, using defaults.[/yellow]"

/-- The defaults, and a word about the file that is missing. -/
def defaultSettings (path : String) : Task Failure Settings := do
  say (missingSettings path)
  return Settings.default

/-- The settings of the file at a path; the defaults if there is none. -/
def settingsAt (path : String) : Task Failure Settings := do
  match (← Task.tree).probe (Path.tidy path) with
  | .error e => throw (.file e)
  | .ok true => loadSettings path
  | .ok false => defaultSettings path

/-- Without a settings file the defaults are used, if the path can be named to the user. -/
theorem settingsAt_missing {desk : Desk} {path : String}
    (h : desk.tree.probe (Path.tidy path) = .ok false)
    (ht : Host.takes (missingSettings path) = true) : (settingsAt path).on desk =
      (.ok Settings.default, { desk with console := desk.console.push (missingSettings path) }) := by
  show (match desk.tree.probe (Path.tidy path) with
    | .error e => throw (.file e)
    | .ok true => loadSettings path
    | .ok false => defaultSettings path : Task Failure Settings) desk = _
  rw [h]
  simp only [defaultSettings, say, ht, if_true]
  rfl

def settingsOf (p : Arguments.Parsed) : Task Failure Settings :=
  match p.value "--config" Settings.defaultPath with
  | none => throw .noValue
  | some path => settingsAt path

end

/-! ## Campaigns -/

def campaignSignature : Arguments.Signature := .new [
  .required .text ["--program"], .optional .text ["--alphabet"], .required .text ["--inputs"],
  .optional .text ["--output"], .optional .text ["--config"], .optional .integer ["--batch_size"],
  .optional .integer ["--max_steps"], .optional .integer ["--tape_size"],
  .optional .toggle ["--no_progress"]] false

/-- The directory for results, unless another is asked for. -/
def defaultOutput : String := "results"

/-- The letters that a line gives; a switch without a value gives none. -/
def lettersOf (p : Arguments.Parsed) : List Json :=
  Alphabet.itemsOf ((p.value "--alphabet" "").getD "")

/-- A part of a campaign: the value of a switch, if it has one. -/
def partOf {α : Type} : Option α → Except Campaign.Failure α
  | none => .error .noValue
  | some value => .ok value

/-- The campaign that a line asks for; numbers that it gives go before the settings. -/
def draftOf [Host] (p : Arguments.Parsed) (s : Settings) : Campaign.Draft where
  program := partOf (p.value "--program" "")
  letters := lettersOf p
  inputs := partOf (p.value "--inputs" "")
  output := partOf (p.value "--output" defaultOutput)
  batchSize := partOf (p.number "--batch_size" s.batchSize)
  maxSteps := partOf (p.number "--max_steps" s.maxSteps)
  tapeSize := (partOf (p.number "--tape_size" s.tapeSize)).bind Campaign.Draft.holdable

def campaign [Host] (args : List String) (now : Moment) : Task Failure String := do
  let p ← arguments campaignSignature args
  let s ← settingsOf p
  ((draftOf p s).simulate now).mapFailure .campaign

/-! ## The inspector -/

def inspectorSignature : Arguments.Signature :=
  .new [.optional .text ["--alphabet"], .optional .toggle ["--latex"]] true

def inspect [Host] (args : List String) : Task Failure Unit := do
  let p ← arguments inspectorSignature args
  let path := p.operand.getD ""
  let source ← Task.ofExcept (((← Task.tree).readText (Path.tidy path)).mapError .file)
  let m ← Task.ofExcept ((Machine.compile source (lettersOf p)).mapError .compile)
  (Inspector.report path m (p.given "--latex")).forM say

/-! ## The shell -/

def shellSignature : Arguments.Signature :=
  .new [.optional .text ["-c", "--command"], .optional .text ["--config"]] false

def inSession (s : Session) (act : Session.Act Unit) : Task Failure Session := fun desk =>
  let (r, w) := act ⟨s, desk⟩
  (match r with
    | .ok () => .ok w.session
    | .error f => .error (.session f), w.desk)

/-- Opens a session as arguments ask for it, with the commands that they give. -/
def openSession [Host] (args : List String) (now : Moment) :
    Task Failure (Session × List (Option String)) := do
  let p ← arguments shellSignature args
  let settings ← settingsOf p
  let s ← (Session.new (.ofSettings settings) now).mapFailure .session
  return (s, p.all "--command")

/-- The texts of commands up to the first that has none. -/
def commandsOf : List (Option String) → List String
  | some line :: rest => line :: commandsOf rest
  | _ => []

theorem commandsOf_some (lines : List String) : commandsOf (lines.map some) = lines := by
  induction lines with
  | nil => rfl
  | cons line rest ih => simp [commandsOf, ih]

/-- Does commands one after the other. One without a text is shown, and cannot be done. -/
def script [Host] (s : Session) (commands : List (Option String)) (now : Moment) : Task Failure Unit := do
  let s ← inSession s (Session.scripted now (commandsOf commands))
  if s.running ∧ none ∈ commands then
    say (Session.echo "[]")
    throw .noCommand

/-- Runs the shell on the commands that arguments give, or else on the lines of the input. -/
def shell [Host] (args input : List String) (now : Moment) : Task Failure Unit := do
  match ← openSession args now with
  | (s, []) => let _ ← inSession s (Session.interactive now input)
  | (s, commands) => script s commands now

end CommandLine

end TapeMachine
