import TapeMachine.Proofs.Checkpoints
import TapeMachine.Proofs.Resume

/-!
# Calls of a campaign

A call of a campaign begins by finding out where the work stands, which writes no file; what it does
then is the plan that it has made. Whatever the files were, a call that has begun has found the
places of its records, and it goes on from the position that its checkpoint says.

## Main statements

* `Campaign.simulate_eq` — a campaign is a call that begins and then does its plan
* `Campaign.Resumable.begin` — how a campaign that can go on begins
* `Campaign.recordsOf_of_located` — the records of a directory stand in the places of its files
* `Campaign.located_of_begin`, `Campaign.completed_of_begin` — where a call stands when it has begun
* `Campaign.Located.records_of_record`, `Campaign.Places.records_of_checkpoint` — what the parts of a
  plan leave in the records
-/

namespace TapeMachine

namespace Campaign

open FileTree

/-! ## A call and its plan -/

/-- A call that has found out where the work stands. -/
structure Call where
  job : Job
  machine : Machine
  inputs : List String
  /-- The position from which it goes on. -/
  completed : Int

/-- All that the call does from its position on. -/
def Call.plan (call : Call) : List Action :=
  Campaign.plan call.machine call.job call.inputs call.completed

variable [Host]

/-- What a call does before its plan: it finds out where the work stands, and says it. -/
def begin (job : Job) (now : Moment) : Task Failure (Journal × Call) := do
  let m ← loadMachine job
  let journal ← openJournal job now
  let inputs ← loadInputs job
  let progress ← loadProgress job
  Task.say (← Task.ofExcept (overview inputs progress))
  let completed ← Task.ofExcept (startingPosition job.batchSize progress)
  return (journal, ⟨job, m, inputs, completed⟩)

/-- A campaign is a call that begins and then does its plan. -/
theorem simulate_eq (job : Job) (now : Moment) : simulate job now = (do
    let (journal, call) ← begin job now
    (workOff job call.plan).mapFailure .file
    Task.say success
    return Path.tidy journal.mainLog) := by
  simp only [simulate, begin, Call.plan, bind_assoc, pure_bind]

variable {job : Job} {now : Moment} {d d' : Desk} {t : FileTree} {lr lc : Location}

/-- A campaign that can go on begins at its position. -/
theorem Resumable.begin {tree made : FileTree} {m : Machine} {inputs : List String} {c : Nat}
    (h : Resumable job tree made m inputs c) (hp : Places job made lr lc)
    (hsize : 0 < job.batchSize) (now : Moment) (console : Array Event) :
    begin job now ⟨tree, console⟩ =
      (.ok (⟨directory job, "results", false, now.date⟩, ⟨job, m, inputs, c⟩),
        ⟨made, console.push (opening inputs (inputs.length - c))⟩) := by
  unfold Campaign.begin
  rw [Task.bind_of_ok (h.loadMachine _), Task.bind_of_ok (h.openJournal now _),
    Task.bind_of_ok (h.loadInputs _), Task.bind_of_ok (h.loadProgress hp _),
    Task.ofExcept_bind (overview_count inputs c), Task.say_bind,
    Task.ofExcept_bind (startingPosition_count hsize c), Task.run_pure]

/-! ## Records -/

/-- The records in a directory: what the results hold, and what the checkpoint holds if there is one.
They are what a call finds when it has made the directory. -/
def recordsOf (dir : String) (t : FileTree) : ByteArray × Option ByteArray :=
  let made := (t.makeDirectories dir).2
  (held made (Path.join dir "results.jsonl"),
    made.fileOf? (Path.join dir "results_checkpoint.json"))

/-- Where the records of a job stand, when a call has begun. There may be a directory in the place of
the results, which is found out only when lines are written. -/
structure Located (job : Job) (t : FileTree) (lr lc : Location) : Prop where
  results : t.locate (resultsPath job) = .ok lr
  checkpoint : t.locate (checkpointPath job) = .ok lc
  checkpoint_free : t.node? lc ≠ some .directory
  ne : lr ≠ lc

theorem Places.located (h : Places job t lr lc) : Located job t lr lc :=
  ⟨h.results, h.checkpoint, h.checkpoint_free, h.ne⟩

/-- The records of a directory are the files in their places. -/
theorem recordsOf_of_located (h : Located job t lr lc) :
    recordsOf (directory job) t = (t.bytesAt lr, t.fileAt? lc) := by
  have hg := makeDirectories_grows t (directory job)
  unfold recordsOf
  generalize (t.makeDirectories (directory job)).2 = made at hg
  have hr : made.locate (resultsPath job) = .ok lr := locate_mono hg.keepsDirectories h.results
  have hc : made.locate (checkpointPath job) = .ok lc :=
    locate_mono hg.keepsDirectories h.checkpoint
  show (held made (resultsPath job), made.fileOf? (checkpointPath job)) = _
  rw [held_of_locate hr, bytesAt_eq_fileAt?, hg.fileAt?, ← bytesAt_eq_fileAt?,
    fileOf?_of_locate hc, hg.fileAt?]

/-! ## Where a call stands when it has begun -/

theorem openJournal_eq_ok {journal : Journal} (h : openJournal job now d = (.ok journal, d')) :
    ∃ made, d.tree.makeDirectories (directory job) = (.ok (), made) ∧
      d' = { d with tree := made } := by
  have hs := Task.mapFailure_eq_ok h
  simp only [Task.onTree, Journal.start] at hs
  generalize d.tree.makeDirectories (directory job) = outcome at hs ⊢
  obtain ⟨r, made⟩ := outcome
  cases r with
  | error e => cases hs
  | ok u =>
    obtain ⟨-, rfl⟩ := Prod.mk.inj hs
    exact ⟨made, rfl, rfl⟩

theorem loadMachine_eq_ok {m : Machine} (h : loadMachine job d = (.ok m, d')) : d' = d := by
  unfold loadMachine at h
  rw [Task.tree_bind] at h
  obtain ⟨source, d₁, hs, hm⟩ := Task.bind_eq_ok h
  rw [(Task.ofExcept_eq_ok hm).2, (Task.ofExcept_eq_ok hs).2]

theorem loadInputs_eq_ok {inputs : List String} (h : loadInputs job d = (.ok inputs, d')) :
    d' = d := by
  unfold loadInputs at h
  rw [Task.tree_bind] at h
  obtain ⟨text, d₁, ht, hi⟩ := Task.bind_eq_ok h
  cases hi
  exact (Task.ofExcept_eq_ok ht).2

/-- The progress is none if there is no checkpoint, else what the checkpoint says. -/
theorem loadProgress_eq_ok {progress : Checkpoint.Progress}
    (h : loadProgress job d = (.ok progress, d')) : d' = d ∧
      (d.tree.probe (checkpointPath job) = .ok false ∧ progress = .count 0 ∨
        ∃ text j, d.tree.readText (checkpointPath job) = .ok text ∧ Json.readLoosely text = .ok j ∧
          Checkpoint.ofJson j = .ok progress) := by
  unfold loadProgress at h
  rw [Task.tree_bind] at h
  obtain ⟨found, d₁, hfound, hrest⟩ := Task.bind_eq_ok h
  obtain ⟨hprobe, hd₁⟩ := Task.ofExcept_eq_ok hfound
  cases found with
  | false =>
    cases hrest
    exact ⟨hd₁, Or.inl ⟨hprobe, rfl⟩⟩
  | true =>
    rw [if_neg (by decide)] at hrest
    obtain ⟨text, d₂, htext, hparse⟩ := Task.bind_eq_ok hrest
    obtain ⟨hread, hd₂⟩ := Task.ofExcept_eq_ok htext
    obtain ⟨j, d₃, hj, hlast⟩ := Task.bind_eq_ok hparse
    obtain ⟨hjson, hd₃⟩ := Task.ofExcept_eq_ok hj
    obtain ⟨hprogress, hd'⟩ := Task.ofExcept_eq_ok hlast
    rw [hd', hd₃, hd₂, hd₁]
    exact ⟨rfl, Or.inr ⟨text, j, hread, hjson, hprogress⟩⟩

/-- What has been done when a call has begun: its directory is there, and it has found its progress
there and taken its position from it. -/
theorem begin_eq_ok {journal : Journal} {call : Call}
    (h : begin job now d = (.ok (journal, call), d')) :
    d.tree.makeDirectories (directory job) = (.ok (), d'.tree) ∧ call.job = job ∧
      ∃ progress, startingPosition job.batchSize progress = .ok call.completed ∧
        (d'.tree.probe (checkpointPath job) = .ok false ∧ progress = .count 0 ∨
          ∃ text j, d'.tree.readText (checkpointPath job) = .ok text ∧ Json.readLoosely text = .ok j ∧
            Checkpoint.ofJson j = .ok progress) := by
  unfold begin at h
  obtain ⟨m, d₁, hm, h⟩ := Task.bind_eq_ok h
  obtain ⟨opened, d₂, hopened, h⟩ := Task.bind_eq_ok h
  obtain ⟨inputs, d₃, hinputs, h⟩ := Task.bind_eq_ok h
  obtain ⟨progress, d₄, hprogress, h⟩ := Task.bind_eq_ok h
  obtain ⟨view, d₅, hview, h⟩ := Task.bind_eq_ok h
  rw [Task.say_bind] at h
  obtain ⟨completed, d₆, hcompleted, h⟩ := Task.bind_eq_ok h
  cases loadMachine_eq_ok hm
  obtain ⟨made, hmade, rfl⟩ := openJournal_eq_ok hopened
  cases loadInputs_eq_ok hinputs
  obtain ⟨rfl, hsays⟩ := loadProgress_eq_ok hprogress
  obtain ⟨-, rfl⟩ := Prod.mk.inj hview
  obtain ⟨hposition, rfl⟩ := Prod.mk.inj hcompleted
  cases h
  exact ⟨hmade, rfl, progress, hposition, hsays⟩

/-- A call that has begun has made the directory of its records, where they were already. -/
theorem located_of_begin {journal : Journal} {call : Call}
    (h : begin job now d = (.ok (journal, call), d')) : (∃ lr lc, Located job d'.tree lr lc) ∧
      recordsOf (directory job) d'.tree = recordsOf (directory job) d.tree := by
  obtain ⟨hmade, -, progress, -, hsays⟩ := begin_eq_ok h
  have hlen : (checkpointPath job).utf8ByteSize ≤ longestPath := by
    by_contra hlong
    have hfault : pathFault? (checkpointPath job) = some .nameTooLong :=
      pathFault?_join_of_lt plainName_checkpoint (locateFrom_of_makeDirectories hmade).1
        (Nat.not_le.mp hlong)
    have hnone : d'.tree.locate (checkpointPath job) = .error .nameTooLong := by
      simp only [locate, hfault]
    rcases hsays with ⟨hprobe, -⟩ | ⟨text, j, hread, -⟩
    · simp [probe, hnone] at hprobe
    · obtain ⟨l, bytes, hl, -⟩ := readText_eq_ok hread
      rw [hnone] at hl
      cases hl
  obtain ⟨lr, lc, hr, hc, hne⟩ := exists_locate_of_makeDirectories hmade hlen
  have hfree : d'.tree.node? lc ≠ some .directory := by
    intro hdir
    rcases hsays with ⟨hprobe, -⟩ | ⟨text, j, hread, -⟩
    · simp [probe, pathExists, nodeAt?, hc, hdir] at hprobe
    · obtain ⟨l, bytes, hl, hn, -⟩ := readText_eq_ok hread
      cases hc.symm.trans hl
      cases hdir.symm.trans hn
  have hl : Located job d'.tree lr lc := ⟨hr, hc, hfree, hne⟩
  refine ⟨⟨lr, lc, hl⟩, ?_⟩
  rw [recordsOf_of_located hl]
  unfold recordsOf
  rw [hmade]
  show _ = (held d'.tree (resultsPath job), d'.tree.fileOf? (checkpointPath job))
  rw [held_of_locate hr, fileOf?_of_locate hc]

/-- A call goes on from the position that the checkpoint says. -/
theorem completed_of_begin {journal : Journal} {call : Call} {c : Nat}
    (h : begin job now d = (.ok (journal, call), d'))
    (hc : (recordsOf (directory job) d.tree).2 = Checkpoint.bytes? c) : call.completed = c := by
  obtain ⟨⟨lr, lc, hl⟩, hrecords⟩ := located_of_begin h
  obtain ⟨-, -, progress, hposition, hsays⟩ := begin_eq_ok h
  rw [← hrecords, recordsOf_of_located hl] at hc
  have hcount : progress = .count c := by
    rcases hsays with ⟨hprobe, rfl⟩ | ⟨text, j, hread, hjson, hprogress⟩
    · -- there is no checkpoint
      have hnone : d'.tree.node? lc = none := by
        simpa [probe, pathExists, nodeAt?, hl.checkpoint] using hprobe
      simp only [fileAt?, hnone] at hc
      rw [Checkpoint.eq_zero_of_bytes? hc.symm]
      rfl
    · obtain ⟨l, bytes, hlocate, hfile, -, hdecode⟩ := readText_eq_ok hread
      cases hl.checkpoint.symm.trans hlocate
      simp only [fileAt?, hfile] at hc
      have hbytes := Checkpoint.eq_text_of_bytes? hc.symm
      rw [hbytes, decode_toUTF8 (Checkpoint.cr_not_mem_text c)] at hdecode
      cases hdecode
      exact Checkpoint.count_of_read hjson hprogress
  rw [hcount] at hposition
  unfold startingPosition at hposition
  simp only at hposition
  split at hposition
  · cases hposition
  · exact (Except.ok.inj hposition).symm

/-! ## What a part of a plan leaves -/

theorem append_of_perform {text : String} (h : perform job (.record text) d = (.ok (), d')) :
    d.tree.append (resultsPath job) text = .ok d'.tree := by
  unfold perform at h
  obtain ⟨t', ht, rfl⟩ := Task.edit_eq_ok h
  exact ht

theorem write_of_perform {n : Int} (h : perform job (.checkpoint n) d = (.ok (), d')) :
    d.tree.write (checkpointPath job) (Checkpoint.text n) = .ok d'.tree := by
  unfold perform at h
  obtain ⟨t', ht, rfl⟩ := Task.edit_eq_ok h
  exact ht

/-- Lines that were written stand at the end of the results, which are a file then. -/
theorem Located.records_of_record {console : Array Event} {text : String}
    (h : Located job t lr lc) (hp : perform job (.record text) ⟨t, console⟩ = (.ok (), d')) :
    Places job d'.tree lr lc ∧
      recordsOf (directory job) d'.tree = ((recordsOf (directory job) t).1 ++ text.toUTF8,
        (recordsOf (directory job) t).2) := by
  obtain ⟨hfree, hw⟩ := free_of_modify (append_of_perform hp) h.results
  have hplaces : Places job t lr lc :=
    ⟨h.results, h.checkpoint, hfree, h.checkpoint_free, h.ne⟩
  have hr : lr.isAbove = false := isAbove_eq_false_of_node? rfl hfree
  have hput := hplaces.put_results (t.bytesAt lr ++ text.toUTF8)
  rw [hplaces.perform_record hw] at hp
  obtain ⟨-, rfl⟩ := Prod.mk.inj hp
  refine ⟨hput, ?_⟩
  rw [recordsOf_of_located hput.located, recordsOf_of_located h, bytesAt_eq_fileAt?,
    fileAt?_put hr, fileAt?_put hr, if_pos rfl, if_neg h.ne]
  rfl

/-- A position that was written stands in the checkpoint. -/
theorem Places.records_of_checkpoint {console : Array Event} {n : Int} (h : Places job t lr lc)
    (hp : perform job (.checkpoint n) ⟨t, console⟩ = (.ok (), d')) : Places job d'.tree lr lc ∧
      recordsOf (directory job) d'.tree =
        ((recordsOf (directory job) t).1, some (Checkpoint.text n).toUTF8) := by
  have hw : Host.mayWrite lc = true := (free_of_modify (write_of_perform hp) h.checkpoint).2
  have hc : lc.isAbove = false := isAbove_eq_false_of_node? rfl h.checkpoint_free
  have hput := h.put_checkpoint (Checkpoint.text n).toUTF8
  rw [h.perform_checkpoint hw] at hp
  obtain ⟨-, rfl⟩ := Prod.mk.inj hp
  refine ⟨hput, ?_⟩
  rw [recordsOf_of_located hput.located, recordsOf_of_located h.located, bytesAt_eq_fileAt?,
    fileAt?_put hc, fileAt?_put hc, if_neg h.ne.symm, if_pos rfl, ← bytesAt_eq_fileAt?]

end Campaign

end TapeMachine
