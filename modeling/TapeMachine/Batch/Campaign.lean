import TapeMachine.Batch
import TapeMachine.Batch.Checkpoint
import TapeMachine.Desk
import TapeMachine.Evaluation
import TapeMachine.Journal

/-!
# Campaigns

A campaign evaluates every input of a file and writes one line of results for each. After each batch
the results are written, then a checkpoint, so that an interrupted campaign goes on after the last
batch that was recorded.

## Main statements

* `Campaign.workOff_append` — work that is done is followed by the work after it
* `Campaign.workOff_eq_error` — work that fails has been done up to the part that failed
* `Campaign.mainLog_results` — the results are the main log of a journal without dates
-/

namespace TapeMachine

namespace Campaign

/-- What a campaign works on. The alphabet is given by its items. -/
structure Job where
  program : String
  letters : List Json
  inputs : String
  output : String
  batchSize : Int
  maxSteps : Int
  tapeSize : Int

/-- Why a campaign stops before its end. -/
inductive Failure where
  | file (f : FileFault)
  | compile (e : CompileError)
  | json (f : Json.ReadFault)
  | checkpoint (f : Checkpoint.Fault)
  /-- The checkpoint is between two inputs. -/
  | brokenPosition
  /-- Batches without inputs never come to an end. -/
  | emptyBatches
  /-- The count of what is left is too long to be announced. -/
  | countTooLong
  /-- A part of the job has no value. -/
  | noValue
  /-- A tape is wanted that no memory holds. -/
  | beyondMemory (size : Int)
  deriving Repr

/-! ## Places -/

/-- The directory of a job's records: one for each program. -/
def directory (job : Job) : String := Path.tidy (Path.join job.output (Path.stem job.program))

def checkpointPath (job : Job) : String := Path.join (directory job) "results_checkpoint.json"

def resultsPath (job : Job) : String := Path.join (directory job) "results.jsonl"

theorem mainLog_results (job : Job) (today : String) :
    Journal.mainLog ⟨directory job, "results", false, today⟩ = resultsPath job := by
  simp [Journal.mainLog, resultsPath]

/-! ## Inputs -/

/-- The inputs of a file: one for each line, the empty line being the empty input. -/
def inputsOf (text : String) : List String := Text.endedLines text

/-! ## A single batch -/

/-- A part of the work on a batch. -/
inductive Action where
  | say (e : Event)
  /-- Write lines at the end of the results. -/
  | record (text : String)
  /-- Replace the checkpoint. -/
  | checkpoint (completed : Int)
  deriving DecidableEq, Repr

/-- What is said of an input that has no result because its run failed. -/
def warning? (e : Evaluation) : Option Event :=
  match e.outcome with
  | .failed message _ =>
    some (.styled "yellow" ("[WARNING] Input " ++ Text.quote e.input ++ " failed: " ++ message))
  | _ => none

def evaluations (m : Machine) (job : Job) (b : Batch) : List Evaluation :=
  b.inputs.map fun input => m.evaluate input job.tapeSize job.maxSteps

/-- What is said before the work on a batch. -/
def announcement (job : Job) (b : Batch) : Event :=
  .marked ("Processing batch " ++ Int.repr (b.number job.batchSize) ++ " with " ++
    Text.grouped b.inputs.length ++ " inputs...")

def actions (m : Machine) (job : Job) (b : Batch) : List Action :=
  let records := evaluations m job b
  .say (announcement job b) :: (records.filterMap warning?).map .say ++
    [.record (Journal.logText (records.map Evaluation.toJson)), .checkpoint b.next]

variable [Host]

def perform (job : Job) : Action → Task FileFault Unit
  | .say e => Task.say e
  | .record text => Task.edit fun t => t.append (resultsPath job) text
  | .checkpoint n => Task.edit fun t => t.write (checkpointPath job) (Checkpoint.text n)

/-- The work on all inputs from a position on, in order: batch by batch. A campaign that is cut off
has done a first part of it. -/
def plan (m : Machine) (job : Job) (inputs : List String) (completed : Int) : List Action :=
  (Batch.split inputs completed job.batchSize).flatMap (actions m job)

/-- Does work in order, up to the first part that fails. -/
def workOff (job : Job) (work : List Action) : Task FileFault Unit := work.forM (perform job)

theorem workOff_nil (job : Job) (d : Desk) : workOff job [] d = (.ok (), d) := rfl

theorem workOff_cons (job : Job) (a : Action) (rest : List Action) :
    workOff job (a :: rest) = perform job a >>= fun _ => workOff job rest := rfl

theorem workOff_append {job : Job} {xs ys : List Action} {d d' : Desk}
    (h : workOff job xs d = (.ok (), d')) : workOff job (xs ++ ys) d = workOff job ys d' := by
  induction xs generalizing d with
  | nil =>
    cases h
    rfl
  | cons x xs ih =>
    rw [List.cons_append, workOff_cons]
    rw [workOff_cons] at h
    cases hx : perform job x d with
    | mk r d₁ =>
      cases r with
      | error e =>
        rw [Task.bind_of_error hx] at h
        cases h
      | ok u =>
        rw [Task.bind_of_ok hx] at h ⊢
        exact ih h

/-- A part of the work that fails changes nothing. -/
theorem perform_eq_error {job : Job} {a : Action} {d d' : Desk} {f : FileFault}
    (h : perform job a d = (.error f, d')) : d' = d := by
  unfold perform at h
  cases a with
  | say e => cases h
  | record text => exact (Task.edit_eq_error h).2
  | checkpoint n => exact (Task.edit_eq_error h).2

/-- Work that fails has been done up to the part that failed. -/
theorem workOff_eq_error {job : Job} {work : List Action} {d d' : Desk} {f : FileFault}
    (h : workOff job work d = (.error f, d')) : ∃ xs a rest, work = xs ++ a :: rest ∧
      workOff job xs d = (.ok (), d') ∧ perform job a d' = (.error f, d') := by
  induction work generalizing d with
  | nil => cases h
  | cons a rest ih =>
    rw [workOff_cons] at h
    cases ha : perform job a d with
    | mk r d₁ =>
      cases r with
      | error e =>
        rw [Task.bind_of_error ha] at h
        cases h
        cases perform_eq_error ha
        exact ⟨[], a, rest, rfl, rfl, ha⟩
      | ok u =>
        rw [Task.bind_of_ok ha] at h
        obtain ⟨xs, b, ys, hsplit, hdone, hfails⟩ := ih h
        refine ⟨a :: xs, b, ys, by rw [hsplit, List.cons_append], ?_, hfails⟩
        rw [workOff_cons, Task.bind_of_ok ha, hdone]

/-- What is said is added to the output, in order. -/
theorem workOff_say {job : Job} (es : List Event) (t : FileTree) (console : Array Event) :
    workOff job (es.map .say) ⟨t, console⟩ = (.ok (), ⟨t, console ++ es.toArray⟩) := by
  induction es generalizing console with
  | nil => rw [List.map_nil, workOff_nil, Array.append_empty]
  | cons e es ih =>
    have hsay : perform job (.say e) ⟨t, console⟩ = (.ok (), ⟨t, console.push e⟩) := rfl
    rw [List.map_cons, workOff_cons, Task.bind_of_ok hsay, ih]
    simp

/-! ## The whole campaign -/

def loadMachine (job : Job) : Task Failure Machine := do
  let source ← Task.ofExcept (((← Task.tree).readText (Path.tidy job.program)).mapError .file)
  Task.ofExcept ((Machine.compile source job.letters).mapError .compile)

/-- The journal of a job, with its directory made. -/
def openJournal (job : Job) (now : Moment) : Task Failure Journal :=
  (Task.onTree fun t => Journal.start t (directory job) "results" false now).mapFailure .file

def loadInputs (job : Job) : Task Failure (List String) := do
  let text ← Task.ofExcept (((← Task.tree).readText job.inputs).mapError .file)
  return inputsOf text

def loadProgress (job : Job) : Task Failure Checkpoint.Progress := do
  let tree ← Task.tree
  let there ← Task.ofExcept ((tree.probe (checkpointPath job)).mapError .file)
  if !there then return .count 0
  let text ← Task.ofExcept ((tree.readText (checkpointPath job)).mapError .file)
  -- only the count is looked for, so it does not matter which other names and texts there are
  let j ← Task.ofExcept ((Json.readLoosely text).mapError .json)
  Task.ofExcept ((Checkpoint.ofJson j).mapError .checkpoint)

/-- What is said of inputs before the work on them. -/
def overview (inputs : List String) (progress : Checkpoint.Progress) : Except Failure Event :=
  match Checkpoint.pending? inputs.length progress with
  | none => .error .countTooLong
  | some pending => .ok (.marked
      ("Loaded " ++ Text.grouped inputs.length ++ " inputs. " ++ pending ++ " pending."))

/-- The position from which batches of a size can be worked off. -/
def startingPosition (batchSize : Int) : Checkpoint.Progress → Except Failure Int
  | .fraction _ => .error .brokenPosition
  | .count completed => if batchSize = 0 then .error .emptyBatches else .ok completed

omit [Host] in
theorem startingPosition_count {size : Int} (h : 0 < size) (n : Int) :
    startingPosition size (.count n) = .ok n := by
  unfold startingPosition
  simp only
  rw [if_neg (by omega)]

/-- What is said when all is done. -/
def success : Event := .marked "[green][SUCCESS] All inputs simulated. Results saved.[/green]"

/-- Runs a campaign from where it stands to its end; the path of the results. -/
def simulate (job : Job) (now : Moment) : Task Failure String := do
  -- a program that does not compile leaves no directory behind
  let m ← loadMachine job
  let journal ← openJournal job now
  let inputs ← loadInputs job
  let progress ← loadProgress job
  -- what is left is announced even if it cannot be worked off
  Task.say (← Task.ofExcept (overview inputs progress))
  let completed ← Task.ofExcept (startingPosition job.batchSize progress)
  (workOff job (plan m job inputs completed)).mapFailure .file
  Task.say success
  return Path.tidy journal.mainLog

end Campaign

end TapeMachine
