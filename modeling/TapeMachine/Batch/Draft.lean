import TapeMachine.Batch.Campaign

/-!
# Drafts of campaigns

A draft is a job some parts of which are not known, each for a reason. A campaign over a draft goes
on for as long as it can do without them, and then stops for the reason of the part that it needs:
the program first, then the place of the results, the inputs and the size of batches. The size of a
tape is needed for the first input, the budget of steps for the first input that fits on its tape.

## Main statements

* `Draft.simulate_ofJob` — a draft of a whole job is the campaign over the job
* `Draft.lacks?_ofJob` — and there is no input for which it lacks anything
-/

namespace TapeMachine

namespace Campaign

variable [Host]

/-- A job as far as it is known; a part that is not known has a reason. -/
structure Draft where
  program : Except Failure String
  letters : List Json
  inputs : Except Failure String
  output : Except Failure String
  batchSize : Except Failure Int
  maxSteps : Except Failure Int
  tapeSize : Except Failure Int

namespace Draft

/-- The size of a tape, if a memory holds it. -/
def holdable (size : Int) : Except Failure Int :=
  if (Host.mostCells : Int) < size then .error (.beyondMemory size) else .ok size

def ofJob (job : Job) : Draft where
  program := .ok job.program
  letters := job.letters
  inputs := .ok job.inputs
  output := .ok job.output
  batchSize := .ok job.batchSize
  maxSteps := .ok job.maxSteps
  tapeSize := holdable job.tapeSize

/-- The job with something in the place of what is not known. -/
def filled (d : Draft) : Job where
  program := d.program.toOption.getD ""
  letters := d.letters
  inputs := d.inputs.toOption.getD ""
  output := d.output.toOption.getD ""
  batchSize := d.batchSize.toOption.getD 1
  maxSteps := d.maxSteps.toOption.getD defaultMaxSteps
  tapeSize := d.tapeSize.toOption.getD defaultTapeSize

def complete (d : Draft) : Bool :=
  d.program.isOk && d.inputs.isOk && d.output.isOk && d.batchSize.isOk && d.maxSteps.isOk &&
    d.tapeSize.isOk

/-- Why an input cannot be evaluated, if it takes a part that is not known. -/
def lacks? (d : Draft) (m : Machine) (input : String) : Option Failure :=
  match d.tapeSize, d.maxSteps with
  | .ok _, .ok _ => none
  | .error f, _ => some f
  | .ok size, .error f => if (m.begin input size 0).isOk then some f else none

/-- Works off batches up to the first with an input that cannot be evaluated. -/
def workOn (d : Draft) (m : Machine) : List Batch → Task Failure Unit
  | [] => return
  | b :: rest =>
    match b.inputs.findSome? (d.lacks? m) with
    | some f => do
      Task.say (announcement d.filled b)
      throw f
    | none => do
      (workOff d.filled (actions m d.filled b)).mapFailure .file
      workOn d m rest

/-- Stops if a part is not known. -/
def need {α : Type} (part : Except Failure α) : Task Failure Unit :=
  Task.ofExcept (part.map fun _ => ())

/-- An input that cannot be evaluated is found out when its batch has been announced. -/
theorem workOn_of_lacks {d : Draft} {m : Machine} {b : Batch} {rest : List Batch} {f : Failure}
    (h : b.inputs.findSome? (d.lacks? m) = some f) (desk : Desk) :
    workOn d m (b :: rest) desk =
      (.error f, { desk with console := desk.console.push (announcement d.filled b) }) := by
  rw [workOn, h]
  rfl

/-- Runs a campaign over what is known; the path of the results if that is enough. -/
def attempt (d : Draft) (now : Moment) : Task Failure String := do
  let job := d.filled
  need d.program
  let m ← loadMachine job
  need d.output
  let journal ← openJournal job now
  need d.inputs
  let inputs ← loadInputs job
  let progress ← loadProgress job
  Task.say (← Task.ofExcept (overview inputs progress))
  need d.batchSize
  let completed ← Task.ofExcept (startingPosition job.batchSize progress)
  workOn d m (Batch.split inputs completed job.batchSize)
  Task.say success
  return Path.tidy journal.mainLog

/-- Runs the campaign over a draft. -/
def simulate (d : Draft) (now : Moment) : Task Failure String :=
  if d.complete then Campaign.simulate d.filled now else d.attempt now

/-! ## Drafts of whole jobs -/

theorem holdable_of_le {size : Int} (h : size ≤ Host.mostCells) : holdable size = .ok size := by
  have hn : ¬((Host.mostCells : Int) < size) := by omega
  rw [holdable, if_neg hn]

theorem filled_ofJob {job : Job} (h : job.tapeSize ≤ Host.mostCells) : (ofJob job).filled = job := by
  simp [filled, ofJob, holdable_of_le h, Except.toOption]

theorem simulate_ofJob {job : Job} (h : job.tapeSize ≤ Host.mostCells) (now : Moment) :
    (ofJob job).simulate now = Campaign.simulate job now := by
  have hc : (ofJob job).complete = true := by
    simp [complete, ofJob, holdable_of_le h, Except.isOk, Except.toBool]
  rw [simulate, if_pos hc, filled_ofJob h]

theorem lacks?_ofJob {job : Job} (h : job.tapeSize ≤ Host.mostCells) (m : Machine)
    (input : String) : (ofJob job).lacks? m input = none := by
  simp [lacks?, ofJob, holdable_of_le h]

end Draft

end Campaign

end TapeMachine
