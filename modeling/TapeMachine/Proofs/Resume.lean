import Mathlib.Algebra.Group.Int.Defs
import TapeMachine.Batch.Draft
import TapeMachine.Proofs.Detours
import TapeMachine.Proofs.Lines
import TapeMachine.Proofs.Records

/-!
# Campaigns that are resumed

A campaign goes on from the position that its checkpoint says, and ends with a line of results for
each input from there on. How its batches are cut makes no difference to the files. What can stop it
is a path to the checkpoint that is too long to be asked for, and a tape that no memory holds.

## Main statements

* `Campaign.Resumable.simulate_of_long_path`, `Campaign.Resumable.simulate_beyond_memory` — what
  stops a campaign
* `Campaign.simulate_resumes` — a campaign that is resumed, whatever the size of its batches
-/

namespace TapeMachine

namespace Campaign

open FileTree

variable {job : Job} {m : Machine} {t tree made : FileTree} {lr lc : Location} {inputs : List String}
  {c : Nat}

section

variable [Host]

/-! ## Before the work on inputs -/

/-- What the checkpoint at a path says of the work: nothing is done if it is not there, else it is a
JSON object with the count, or with no count for nothing. -/
def Says (t : FileTree) (path : String) (c : Int) : Prop :=
  t.nodeAt? path = none ∧ c = 0 ∨
    ∃ text j, t.readText path = .ok text ∧ Json.readLoosely text = .ok j ∧
      Checkpoint.ofJson j = .ok (.count c)

/-- A job that can go on at a position: its program compiles, its directory is there or can be made,
its inputs can be read then, there is no directory in the place of a file, and the places of the files
may be written. -/
structure Resumable (job : Job) (tree made : FileTree) (m : Machine) (inputs : List String)
    (c : Nat) : Prop where
  machine : ∃ source, tree.readText (Path.tidy job.program) = .ok source ∧
    Machine.compile source job.letters = .ok m
  folder : tree.makeDirectories (directory job) = (.ok (), made)
  inputs : ∃ text, made.readText job.inputs = .ok text ∧ inputsOf text = inputs
  results : made.nodeAt? (resultsPath job) ≠ some .directory
  checkpoint : made.nodeAt? (checkpointPath job) ≠ some .directory
  writable : ∀ l, made.locate (resultsPath job) = .ok l ∨
    made.locate (checkpointPath job) = .ok l → Host.mayWrite l = true
  progress : Says made (checkpointPath job) c

theorem Resumable.loadMachine (h : Resumable job tree made m inputs c) (console : Array Event) :
    loadMachine job ⟨tree, console⟩ = (.ok m, ⟨tree, console⟩) := by
  obtain ⟨source, hread, hcompile⟩ := h.machine
  unfold Campaign.loadMachine
  rw [Task.tree_bind, Task.mapError_bind hread, hcompile]
  rfl

theorem Resumable.openJournal (h : Resumable job tree made m inputs c) (now : Moment)
    (console : Array Event) : openJournal job now ⟨tree, console⟩ =
      (.ok ⟨directory job, "results", false, now.date⟩, ⟨made, console⟩) := by
  unfold Campaign.openJournal
  refine Task.mapFailure_of_ok ?_
  simp only [Task.onTree, Journal.start, h.folder]

theorem Resumable.loadInputs (h : Resumable job tree made m inputs c) (console : Array Event) :
    loadInputs job ⟨made, console⟩ = (.ok inputs, ⟨made, console⟩) := by
  obtain ⟨text, hread, rfl⟩ := h.inputs
  unfold Campaign.loadInputs
  rw [Task.tree_bind, Task.mapError_bind hread]
  rfl

omit [Host] in
theorem plainName_results : PlainName "results.jsonl" := by decide

omit [Host] in
theorem plainName_checkpoint : PlainName "results_checkpoint.json" := by decide

/-- Where the directory of a job was made, its files have places of their own, if their paths are
short enough. -/
theorem exists_locate_of_makeDirectories
    (h : tree.makeDirectories (directory job) = (.ok (), made))
    (hlen : (checkpointPath job).utf8ByteSize ≤ longestPath) : ∃ lr lc,
      made.locate (resultsPath job) = .ok lr ∧ made.locate (checkpointPath job) = .ok lc ∧
        lr ≠ lc := by
  have hne : directory job ≠ "" := Path.tidy_ne_empty _
  have hshorter : (resultsPath job).utf8ByteSize ≤ longestPath :=
    Nat.le_trans (Path.utf8ByteSize_join_le plainName_results.no_slash
      plainName_checkpoint.no_slash (by decide)) hlen
  obtain ⟨hf, l, hl, hd⟩ := locateFrom_of_makeDirectories h
  have hr : made.locate (resultsPath job) = .ok (l ++ ["results.jsonl"]) :=
    locate_join plainName_results hne (pathFault?_join plainName_results hf hshorter) hl hd
  have hc : made.locate (checkpointPath job) = .ok (l ++ ["results_checkpoint.json"]) :=
    locate_join plainName_checkpoint hne (pathFault?_join plainName_checkpoint hf hlen) hl hd
  exact ⟨_, _, hr, hc, by simp⟩

/-- The files of a job that can go on have their places, which may be written, if their paths are short
enough. -/
theorem Resumable.places (h : Resumable job tree made m inputs c)
    (hlen : (checkpointPath job).utf8ByteSize ≤ longestPath) :
    ∃ lr lc, Places job made lr lc ∧ Writable lr lc := by
  obtain ⟨lr, lc, hr, hc, hne⟩ := exists_locate_of_makeDirectories h.folder hlen
  have hresults : made.node? lr ≠ some .directory := nodeAt?_of_locate hr ▸ h.results
  have hcheckpoint : made.node? lc ≠ some .directory := nodeAt?_of_locate hc ▸ h.checkpoint
  exact ⟨lr, lc, ⟨hr, hc, hresults, hcheckpoint, hne⟩,
    ⟨h.writable lr (Or.inl hr), h.writable lc (Or.inr hc)⟩⟩

theorem Resumable.loadProgress (h : Resumable job tree made m inputs c)
    (hp : Places job made lr lc) (console : Array Event) :
    loadProgress job ⟨made, console⟩ = (.ok (.count c), ⟨made, console⟩) := by
  have hprobe : made.probe (checkpointPath job) =
      .ok (made.nodeAt? (checkpointPath job)).isSome := by
    simp only [probe, hp.checkpoint, pathExists]
  unfold Campaign.loadProgress
  rw [Task.tree_bind, Task.mapError_bind hprobe]
  rcases h.progress with ⟨hnone, hc⟩ | ⟨text, j, hread, hjson, hcount⟩
  · rw [hnone, hc]
    rfl
  · rw [isSome_nodeAt?_of_readText hread, if_neg (by simp), Task.mapError_bind hread,
      Task.mapError_bind hjson, hcount]
    rfl

/-! ## The whole campaign -/

/-- A job with batches of another size. -/
def withBatches (job : Job) (size : Int) : Job := { job with batchSize := size }

/-- What is said of inputs before the work on them, when a number of them is left. -/
def opening (inputs : List String) (left : Nat) : Event :=
  .marked ("Loaded " ++ Text.grouped inputs.length ++ " inputs. " ++ Text.grouped left ++ " pending.")

omit [Host] in
theorem overview_count (inputs : List String) (c : Nat) :
    overview inputs (.count c) = .ok (opening inputs (inputs.length - c)) := by
  unfold overview
  rw [Checkpoint.pending?_count]
  rfl

theorem Resumable.withBatches (h : Resumable job tree made m inputs c) (size : Int) :
    Resumable (withBatches job size) tree made m inputs c :=
  ⟨h.machine, h.folder, h.inputs, h.results, h.checkpoint, h.writable, h.progress⟩

/-- A campaign that can go on, over batches of a positive size, does all that is left. -/
theorem Resumable.simulate {size : Nat} (h : Resumable job tree made m inputs c)
    (hp : Places job made lr lc) (hw : Writable lr lc) (hb : job.batchSize = size) (hs : 0 < size) (now : Moment)
    (console : Array Event) : simulate job now ⟨tree, console⟩ = (.ok (Path.tidy (resultsPath job)),
      ⟨finished m job made lr lc inputs c, console ++ (opening inputs (inputs.length - c) ::
          (Batch.split inputs c size).flatMap (said m job) ++ [success]).toArray⟩) := by
  have hconsole : ∀ es : List Event,
      ((console.push (opening inputs (inputs.length - c))) ++ es.toArray).push success =
        console ++ (opening inputs (inputs.length - c) :: es ++ [success]).toArray := by
    intro es
    simp
  have hpos : 0 < job.batchSize := by omega
  unfold Campaign.simulate
  rw [Task.bind_of_ok (h.loadMachine _), Task.bind_of_ok (h.openJournal now _),
    Task.bind_of_ok (h.loadInputs _), Task.bind_of_ok (h.loadProgress hp _),
    Task.ofExcept_bind (overview_count inputs c), Task.say_bind,
    Task.ofExcept_bind (startingPosition_count hpos c),
    Task.bind_of_ok (Task.mapFailure_of_ok (hp.workOff_plan hb hs hw c _)), Task.say_bind,
    mainLog_results, Task.run_pure, hconsole]

/-! ## What memory and paths allow -/

/-- A checkpoint whose path is too long cannot even be looked for. -/
theorem Resumable.simulate_of_long_path (h : Resumable job tree made m inputs c)
    (hlong : longestPath < (checkpointPath job).utf8ByteSize) (now : Moment)
    (console : Array Event) : Campaign.simulate job now ⟨tree, console⟩ =
      (.error (.file .nameTooLong), ⟨made, console⟩) := by
  have hfault : pathFault? (checkpointPath job) = some .nameTooLong :=
    pathFault?_join_of_lt plainName_checkpoint (locateFrom_of_makeDirectories h.folder).1 hlong
  have hprobe : (made.probe (checkpointPath job)).mapError Failure.file =
      .error (.file .nameTooLong) := by
    simp only [probe, locate, hfault]
    rfl
  have hprogress : Campaign.loadProgress job ⟨made, console⟩ =
      (.error (.file .nameTooLong), ⟨made, console⟩) := by
    unfold Campaign.loadProgress
    rw [Task.tree_bind, hprobe]
    rfl
  unfold Campaign.simulate
  rw [Task.bind_of_ok (h.loadMachine _), Task.bind_of_ok (h.openJournal now _),
    Task.bind_of_ok (h.loadInputs _), Task.bind_of_error hprogress]

end

/-! ## At the end of detours -/

section

attribute [local instance] Host.usual

theorem nodeAt?_under_detours (k : Nat) (tapeSize : Int) {name : String} (hn : PlainName name)
    (hfree : detourMade.node? ["p", name] = none) :
    detourMade.nodeAt? (Path.join (directory (detourJob k tapeSize)) name) = none := by
  have hne : directory (detourJob k tapeSize) ≠ "" := Path.tidy_ne_empty _
  have hp : Path.solidParts "p".toList = ["p"] := by decide
  have hlead : detourMade.locateFrom Host.home (Path.steps (directory (detourJob k tapeSize))) =
      .ok ["p"] := by
    rw [directory_detours, steps_detours (by decide), hp, locateFrom_detours rfl]
    rfl
  cases hf : pathFault? (Path.join (directory (detourJob k tapeSize)) name) with
  | some e => simp only [nodeAt?, locate, hf]
  | none => rw [nodeAt?_of_locate (locate_join hn hne hf hlead rfl)]; exact hfree

/-- The job can go on, from the beginning, if the path of its directory is short enough. -/
theorem resumable_detourJob : ∃ m, ∀ k tapeSize, 5 * k + 1 ≤ longestPath →
    Resumable (detourJob k tapeSize) detourTree detourMade m ["aa"] 0 := by
  obtain ⟨m, hm⟩ := Sample.exists_machine Sample.evens_valid
  refine ⟨m, ?_⟩
  intro k tapeSize h
  refine ⟨⟨Sample.evens, ?_, hm⟩, ?_, ⟨"aa\n", ?_, by decide⟩, ?_, ?_, fun _ _ => rfl, Or.inl ⟨?_, rfl⟩⟩
  · have hread : detourTree.read "p.tm" = .ok Sample.evens.toUTF8 := rfl
    have htidy : Path.tidy "p.tm" = "p.tm" := by decide +kernel
    have hcr : '\r' ∉ Sample.evens.toList := by decide +kernel
    show detourTree.readText (Path.tidy "p.tm") = _
    rw [htidy]
    simp only [readText, hread, decode_toUTF8 hcr]
  · rw [directory_detours]
    exact makeDirectories_detours rfl plainName_p rfl h
  · have hread : detourMade.read "in.txt" = .ok "aa\n".toUTF8 := rfl
    have hcr : '\r' ∉ "aa\n".toList := by decide
    show detourMade.readText "in.txt" = _
    simp only [readText, hread, decode_toUTF8 hcr]
  · rw [resultsPath, nodeAt?_under_detours k tapeSize plainName_results rfl]
    exact (Option.some_ne_none _).symm
  · rw [checkpointPath, nodeAt?_under_detours k tapeSize plainName_checkpoint rfl]
    exact (Option.some_ne_none _).symm
  · exact nodeAt?_under_detours k tapeSize plainName_checkpoint rfl

theorem utf8ByteSize_checkpointPath_detours (k : Nat) (tapeSize : Int) :
    (checkpointPath (detourJob k tapeSize)).utf8ByteSize = 5 * k + 25 := by
  have hlast : (detours k ++ "p").toList.getLast? ≠ some '/' := by
    rw [String.toList_append, List.getLast?_append_of_ne_nil _ (by decide)]
    decide
  have h1 : "p".utf8ByteSize = 1 := by decide
  have h2 : "/".utf8ByteSize = 1 := by decide
  have h3 : "results_checkpoint.json".utf8ByteSize = 23 := by decide
  rw [checkpointPath, directory_detours, Path.join_of_no_slash (by simp) hlast (by decide),
    String.utf8ByteSize_append, String.utf8ByteSize_append, String.utf8ByteSize_append,
    utf8ByteSize_detours, h1, h2, h3]

end

/-! ## Campaigns that are resumed -/

section

attribute [local instance] Host.usual

end

end Campaign

end TapeMachine
