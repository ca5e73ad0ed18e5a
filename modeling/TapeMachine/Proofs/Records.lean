import TapeMachine.Batch.Campaign
import TapeMachine.Proofs.Batches
import TapeMachine.Proofs.Folders

/-!
# The records of a campaign

Each batch appends its lines to the results and then replaces the checkpoint, so the files after a
batch are told by what was appended since the beginning and by the position reached. This is the
invariant of the run over the batches: two batches leave what one batch with the lines of both would
have left. The size of batches drops out of it.

## Main statements

* `Campaign.Places.finished_advance` — a batch and those after it leave what one would have left
* `Campaign.Places.workOff_actions` — what the work on one batch leaves
* `Campaign.Places.workOff_plan` — what the work on all batches leaves
* `Campaign.Places.completed` — what is in the files then
-/

namespace TapeMachine

namespace Campaign

open FileTree

variable [Host] {job : Job} {m : Machine} {t : FileTree} {lr lc : Location}

/-! ## The files of a campaign -/

/-- Where the results and the checkpoint of a job stand. -/
structure Places (job : Job) (t : FileTree) (lr lc : Location) : Prop where
  results : t.locate (resultsPath job) = .ok lr
  checkpoint : t.locate (checkpointPath job) = .ok lc
  results_free : t.node? lr ≠ some .directory
  checkpoint_free : t.node? lc ≠ some .directory
  ne : lr ≠ lc

/-- Both places may be written. -/
structure Writable (lr lc : Location) : Prop where
  results : Host.mayWrite lr = true
  checkpoint : Host.mayWrite lc = true

/-- The files after lines were appended to the results and a position was written. -/
def recorded (t : FileTree) (lr lc : Location) (lines : String) (n : Int) : FileTree :=
  (t.put lr (.file (t.bytesAt lr ++ lines.toUTF8))).put lc (.file (Checkpoint.text n).toUTF8)

/-- A file in either place leaves the places as they are. -/
theorem Places.put_results (h : Places job t lr lc) (bytes : ByteArray) :
    Places job (t.put lr (.file bytes)) lr lc := by
  have hk := keepsDirectories_put h.results_free bytes
  have hl : lr.isAbove = false := isAbove_eq_false_of_node? rfl h.results_free
  refine ⟨locate_mono hk h.results, locate_mono hk h.checkpoint, ?_, ?_, h.ne⟩
  · rw [node?_put hl, if_pos rfl]
    simp
  · rw [node?_put hl, if_neg h.ne]
    exact h.checkpoint_free

theorem Places.put_checkpoint (h : Places job t lr lc) (bytes : ByteArray) :
    Places job (t.put lc (.file bytes)) lr lc := by
  have hk := keepsDirectories_put h.checkpoint_free bytes
  have hl : lc.isAbove = false := isAbove_eq_false_of_node? rfl h.checkpoint_free
  refine ⟨locate_mono hk h.results, locate_mono hk h.checkpoint, ?_, ?_, h.ne⟩
  · rw [node?_put hl, if_neg h.ne.symm]
    exact h.results_free
  · rw [node?_put hl, if_pos rfl]
    simp

theorem Places.recorded (h : Places job t lr lc) (lines : String) (n : Int) :
    Places job (recorded t lr lc lines n) lr lc := (h.put_results _).put_checkpoint _

/-- What is in the results after lines were appended. -/
theorem Places.bytesAt_recorded (h : Places job t lr lc) (lines : String) (n : Int) :
    (Campaign.recorded t lr lc lines n).bytesAt lr = t.bytesAt lr ++ lines.toUTF8 := by
  have hr : lr.isAbove = false := isAbove_eq_false_of_node? rfl h.results_free
  have hc : lc.isAbove = false := isAbove_eq_false_of_node? rfl h.checkpoint_free
  unfold Campaign.recorded
  rw [bytesAt, node?_put hc, if_neg h.ne.symm, node?_put hr, if_pos rfl]

/-- Recording twice is recording the lines of both at once, with the later position. -/
theorem Places.recorded_recorded (h : Places job t lr lc) (lines lines' : String) (n n' : Int) :
    Campaign.recorded (Campaign.recorded t lr lc lines n) lr lc lines' n' =
      Campaign.recorded t lr lc (lines ++ lines') n' := by
  have hbytes := h.bytesAt_recorded lines n
  rw [Campaign.recorded, hbytes, Campaign.recorded, put_comm t h.ne, put_put]
  show (t.put lr (.file (t.bytesAt lr ++ lines.toUTF8 ++ lines'.toUTF8))).put lc _ =
    (t.put lr (.file (t.bytesAt lr ++ (lines.toUTF8 ++ lines'.toUTF8)))).put lc _
  rw [ByteArray.append_assoc]

/-! ## A single batch -/

/-- What is said of a batch. -/
def said (m : Machine) (job : Job) (b : Batch) : List Event :=
  announcement job b :: (evaluations m job b).filterMap warning?

/-- The entries of inputs in the results. -/
def entries (m : Machine) (job : Job) (inputs : List String) : List Json :=
  inputs.map fun input => (m.evaluate input job.tapeSize job.maxSteps).toJson

theorem Places.perform_record (h : Places job t lr lc) (hw : Host.mayWrite lr = true)
    (lines : String) (console : Array Event) :
    perform job (.record lines) ⟨t, console⟩ =
      (.ok (), ⟨t.put lr (.file (t.bytesAt lr ++ lines.toUTF8)), console⟩) := by
  have ha : t.append (resultsPath job) lines =
      .ok (t.put lr (.file (t.bytesAt lr ++ lines.toUTF8))) :=
    modify_of_locate h.results h.results_free hw _
  simp only [perform, Task.edit, ha]

theorem Places.perform_checkpoint (h : Places job t lr lc) (hw : Host.mayWrite lc = true) (n : Int)
    (console : Array Event) :
    perform job (.checkpoint n) ⟨t, console⟩ =
      (.ok (), ⟨t.put lc (.file (Checkpoint.text n).toUTF8), console⟩) := by
  have hwrite : t.write (checkpointPath job) (Checkpoint.text n) =
      .ok (t.put lc (.file (Checkpoint.text n).toUTF8)) :=
    modify_of_locate h.checkpoint h.checkpoint_free hw _
  simp only [perform, Task.edit, hwrite]

/-- The work on a batch says what is to be said and records its lines and the position after it. -/
theorem Places.workOff_actions (h : Places job t lr lc) (hw : Writable lr lc) (b : Batch)
    (console : Array Event) :
    workOff job (actions m job b) ⟨t, console⟩ =
      (.ok (), ⟨Campaign.recorded t lr lc (Journal.logText (entries m job b.inputs)) b.next,
        console ++ (said m job b).toArray⟩) := by
  have hsaid : actions m job b = (said m job b).map .say ++
      [.record (Journal.logText (entries m job b.inputs)), .checkpoint b.next] := by
    have he : (evaluations m job b).map Evaluation.toJson = entries m job b.inputs := by
      rw [evaluations, List.map_map]
      rfl
    rw [actions, he]
    rfl
  rw [hsaid, workOff_append (workOff_say _ _ _), workOff_cons,
    Task.bind_of_ok (h.perform_record hw.results _ _), workOff_cons,
    Task.bind_of_ok ((h.put_results _).perform_checkpoint hw.checkpoint _ _), workOff_nil]
  rfl

/-! ## All batches -/

/-- The files when all inputs from a position on have been recorded. Where no input is left, nothing
is written. -/
def finished (m : Machine) (job : Job) (t : FileTree) (lr lc : Location) (inputs : List String)
    (c : Nat) : FileTree :=
  if c < inputs.length then
    recorded t lr lc (Journal.logText (entries m job (inputs.drop c))) inputs.length
  else t

/-- A batch and all that comes after it leave the files as if there had been one batch. -/
theorem Places.finished_advance {inputs : List String} {size c : Nat} (h : Places job t lr lc)
    (hc : c < inputs.length) :
    finished m job (Campaign.recorded t lr lc
        (Journal.logText (entries m job ((inputs.drop c).take size)))
        (Batch.next ⟨c, (inputs.drop c).take size⟩)) lr lc inputs (c + size) =
      finished m job t lr lc inputs c := by
  have hrest : (inputs.drop c).take size ++ inputs.drop (c + size) = inputs.drop c := by
    rw [← List.drop_drop, List.take_append_drop]
  unfold finished
  rw [if_pos hc]
  by_cases hlast : c + size < inputs.length
  · have hlines : Journal.logText (entries m job ((inputs.drop c).take size)) ++
        Journal.logText (entries m job (inputs.drop (c + size))) =
          Journal.logText (entries m job (inputs.drop c)) := by
      rw [← Journal.logText_append, entries, entries, ← List.map_append, hrest, ← entries]
    rw [if_pos hlast, h.recorded_recorded, hlines]
  · -- the last batch ends with the list
    have hnext : Batch.next ⟨c, (inputs.drop c).take size⟩ = inputs.length := by
      simp only [Batch.next, List.length_take, List.length_drop]
      omega
    have hnil : inputs.drop (c + size) = [] := List.drop_eq_nil_of_le (Nat.not_lt.mp hlast)
    rw [hnil, List.append_nil] at hrest
    rw [if_neg hlast, hnext, hrest]

/-- The work from a position on leaves all lines from there in the results, and the end of the list
in the checkpoint. -/
theorem Places.workOff_plan {inputs : List String} {size : Nat} (hb : job.batchSize = size)
    (hs : 0 < size) (h : Places job t lr lc) (hw : Writable lr lc) (c : Nat)
    (console : Array Event) : workOff job (plan m job inputs c) ⟨t, console⟩ = (.ok (), ⟨finished m job t lr lc inputs c,
      console ++ ((Batch.split inputs c size).flatMap (said m job)).toArray⟩) := by
  unfold plan
  rw [hb]
  induction c using Batch.advance inputs hs generalizing t console with
  | done c hc =>
    rw [Batch.split_of_le hs hc, finished, if_neg (Nat.not_lt.mpr hc)]
    simp [workOff_nil]
  | next c hc ih =>
    rw [Batch.split_of_lt hs hc, List.flatMap_cons, workOff_append (h.workOff_actions hw _ _),
      ih (h.recorded _ _), h.finished_advance hc, List.flatMap_cons, Array.append_assoc,
      ← List.append_toArray]

/-! ## What is in the files then -/

/-- The bytes of the file at a path; none if there is no file. -/
def held (t : FileTree) (path : String) : ByteArray := (t.fileOf? path).getD ByteArray.empty

theorem held_of_locate {path : String} {l : Location} (h : t.locate path = .ok l) :
    held t path = t.bytesAt l := by
  rw [held, fileOf?_of_locate h, bytesAt_eq_fileAt?]

theorem Places.held_results (h : Places job t lr lc) : held t (resultsPath job) = t.bytesAt lr :=
  held_of_locate h.results

/-- What the files hold after lines were appended and a position was written, and that no other place
was changed. -/
theorem Places.fileOf?_recorded (h : Places job t lr lc) (lines : String) (n : Int) :
    (Campaign.recorded t lr lc lines n).fileOf? (resultsPath job) =
        some (held t (resultsPath job) ++ lines.toUTF8) ∧
      (Campaign.recorded t lr lc lines n).fileOf? (checkpointPath job) =
        some (Checkpoint.text n).toUTF8 ∧
      ∀ l, l ≠ lr → l ≠ lc → (Campaign.recorded t lr lc lines n).node? l = t.node? l := by
  have hr : lr.isAbove = false := isAbove_eq_false_of_node? rfl h.results_free
  have hc : lc.isAbove = false := isAbove_eq_false_of_node? rfl h.checkpoint_free
  have hnode : ∀ l, (Campaign.recorded t lr lc lines n).node? l =
      if lc = l then some (.file (Checkpoint.text n).toUTF8)
      else if lr = l then some (.file (t.bytesAt lr ++ lines.toUTF8)) else t.node? l := by
    intro l
    unfold Campaign.recorded
    rw [node?_put hc, node?_put hr]
  refine ⟨?_, ?_, ?_⟩
  · rw [fileOf?_of_locate (h.recorded lines n).results, FileTree.fileAt?, hnode, if_neg h.ne.symm,
      if_pos rfl, h.held_results]
  · rw [fileOf?_of_locate (h.recorded lines n).checkpoint, FileTree.fileAt?, hnode, if_pos rfl]
  · intro l hlr hlc
    rw [hnode, if_neg (Ne.symm hlc), if_neg (Ne.symm hlr)]

/-- The files when all inputs from a position on have been recorded. -/
structure Completed (job : Job) (m : Machine) (inputs : List String) (c : Nat)
    (made final : FileTree) : Prop where
  /-- The results hold what they held, and a line for each input that was left, in order. -/
  results : c < inputs.length → final.fileOf? (resultsPath job) =
    some (held made (resultsPath job) ++ (Journal.logText (entries m job (inputs.drop c))).toUTF8)
  /-- The checkpoint says how many inputs there are. -/
  checkpoint : c < inputs.length →
    final.fileOf? (checkpointPath job) = some (Checkpoint.text inputs.length).toUTF8
  others : ∀ l, final.node? l ≠ made.node? l →
    made.locate (resultsPath job) = .ok l ∨ made.locate (checkpointPath job) = .ok l
  /-- If no input was left, no file was changed. -/
  unchanged : inputs.length ≤ c → final = made

theorem Places.completed (h : Places job t lr lc) (inputs : List String) (c : Nat) :
    Completed job m inputs c t (finished m job t lr lc inputs c) := by
  obtain ⟨hr, hc, hother⟩ := h.fileOf?_recorded
    (Journal.logText (entries m job (inputs.drop c))) inputs.length
  unfold finished
  by_cases hlt : c < inputs.length
  · rw [if_pos hlt]
    refine ⟨fun _ => hr, fun _ => hc, ?_, fun hle => absurd hlt (Nat.not_lt.mpr hle)⟩
    intro l hl
    by_cases h1 : l = lr
    · exact Or.inl (h1 ▸ h.results)
    · by_cases h2 : l = lc
      · exact Or.inr (h2 ▸ h.checkpoint)
      · exact absurd (hother l h1 h2) hl
  · rw [if_neg hlt]
    exact ⟨fun hc => absurd hc hlt, fun hc => absurd hc hlt, fun l hl => absurd rfl hl, fun _ => rfl⟩

end Campaign

end TapeMachine
