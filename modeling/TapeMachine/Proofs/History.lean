import Mathlib.Data.List.ModifyLast
import Mathlib.Logic.Relation
import TapeMachine.Proofs.Portions

/-!
# Histories of campaigns

The records in one directory can be the work of many calls, each with inputs, limits and batches of
its own. A call runs to its end or is cut off, and the next one goes on from the checkpoint. A
history is made of small steps, so that it can stop anywhere: also between the two writes of a batch,
when the results are ahead of the checkpoint.

The invariant is that the portions are chained, and that a call in the middle of its work stands
either before a batch, at the position of the checkpoint, or between the two writes of that batch. So
a call that is cut off can only make the next one do a batch again.

## Main statements

* `Campaign.steps_of_simulate`, `Campaign.steps_of_cut` — what a call does is a history
* `Campaign.steps_of_simulate_error` — a call that fails after it has begun is one that is cut off
* `Campaign.Sound.step`, `Campaign.Sound.steps` — what one step and many steps preserve
* `Campaign.records_safe` — the records at every moment of a history
* `Campaign.Resumable.steps_of_cut_between_writes` — where the results are ahead of the checkpoint
-/

namespace TapeMachine

namespace Campaign

open FileTree Relation

/-! ## Histories -/

/-- Whether a call is going on. -/
inductive Phase where
  /-- No call is going on; the last one, if it has run to its end. -/
  | between (ended : Option Call)
  /-- A call is going on, and has still something to do. -/
  | during (call : Call) (rest : List Action)

/-- Where the work of many calls in one directory stands. -/
structure History where
  desk : Desk
  phase : Phase
  /-- What was appended to the results since the beginning. -/
  portions : List Portion

/-- A history before the first call. -/
def History.fresh (desk : Desk) : History := ⟨desk, .between none, []⟩

/-- The portions after a call has done a part of its plan. -/
def note (call : Call) (portions : List Portion) : Action → List Portion
  | .say _ => portions
  | .record text => portions ++ [⟨call, text, false⟩]
  | .checkpoint _ => portions.modifyLast fun p => { p with saved := true }

section

variable [Host]

/-- A step of a history in a directory. A call that fails after it has begun is one that is cut off,
and so is one that wants a tape which no memory holds. -/
inductive Step (dir : String) : History → History → Prop
  /-- Between calls anything may change, but not the records. -/
  | elsewhere {desk desk' : Desk} {ended : Option Call} {portions : List Portion}
      (hsame : recordsOf dir desk'.tree = recordsOf dir desk.tree) :
      Step dir ⟨desk, .between ended, portions⟩ ⟨desk', .between ended, portions⟩
  | start {desk desk' : Desk} {ended : Option Call} {portions : List Portion} {job : Job}
      {now : Moment} {journal : Journal} {call : Call} (hdir : directory job = dir)
      (hsize : 1 ≤ job.batchSize) (hbegin : begin job now desk = (.ok (journal, call), desk')) :
      Step dir ⟨desk, .between ended, portions⟩ ⟨desk', .during call call.plan, portions⟩
  | act {desk desk' : Desk} {portions : List Portion} {call : Call} {a : Action}
      {rest : List Action} (hperform : perform call.job a desk = (.ok (), desk')) :
      Step dir ⟨desk, .during call (a :: rest), portions⟩
        ⟨desk', .during call rest, note call portions a⟩
  | finish {desk : Desk} {portions : List Portion} {call : Call} :
      Step dir ⟨desk, .during call [], portions⟩
        ⟨{ desk with console := desk.console.push success }, .between (some call), portions⟩
  | cut {desk : Desk} {portions : List Portion} {call : Call} {rest : List Action} :
      Step dir ⟨desk, .during call rest, portions⟩ ⟨desk, .between none, portions⟩

/-- Any number of steps. -/
abbrev Steps (dir : String) : History → History → Prop := ReflTransGen (Step dir)

/-! ## What a call does is a history -/

section

variable {dir : String} {desk desk' : Desk} {job : Job} {now : Moment} {call : Call}

theorem steps_of_workOff {xs : List Action} (h : workOff call.job xs desk = (.ok (), desk'))
    (rest : List Action) (portions : List Portion) :
    Steps dir ⟨desk, .during call (xs ++ rest), portions⟩
      ⟨desk', .during call rest, xs.foldl (note call) portions⟩ := by
  induction xs generalizing desk portions with
  | nil =>
    cases h
    exact .refl
  | cons a xs ih =>
    rw [workOff_cons] at h
    obtain ⟨u, desk₁, ha, hxs⟩ := Task.bind_eq_ok h
    exact .head (.act ha) (ih hxs _)

/-- A call that is cut off when it has done a first part of its plan. -/
theorem steps_of_cut {journal : Journal} {desk₁ : Desk} {xs rest : List Action}
    (hdir : directory job = dir) (hsize : 1 ≤ job.batchSize)
    (hbegin : begin job now desk = (.ok (journal, call), desk₁)) (hplan : call.plan = xs ++ rest)
    (h : workOff call.job xs desk₁ = (.ok (), desk')) (ended : Option Call)
    (portions : List Portion) : Steps dir ⟨desk, .between ended, portions⟩
      ⟨desk', .between none, xs.foldl (note call) portions⟩ := by
  have hstart : Step dir ⟨desk, .between ended, portions⟩
      ⟨desk₁, .during call (xs ++ rest), portions⟩ := hplan ▸ .start hdir hsize hbegin
  exact (ReflTransGen.head hstart (steps_of_workOff h rest portions)).tail .cut

/-- A call that runs to its end. -/
theorem steps_of_simulate {path : String} (hdir : directory job = dir) (hsize : 1 ≤ job.batchSize)
    (h : simulate job now desk = (.ok path, desk')) (ended : Option Call)
    (portions : List Portion) : ∃ journal call desk₁,
      begin job now desk = (.ok (journal, call), desk₁) ∧
        Steps dir ⟨desk, .between ended, portions⟩
          ⟨desk', .between (some call), call.plan.foldl (note call) portions⟩ := by
  rw [simulate_eq] at h
  obtain ⟨⟨journal, call⟩, desk₁, hbegin, hrest⟩ := Task.bind_eq_ok h
  obtain ⟨u, desk₂, hwork, hlast⟩ := Task.bind_eq_ok hrest
  have hdone : workOff call.job call.plan desk₁ = (.ok (), desk₂) := by
    rw [(begin_eq_ok hbegin).2.1]
    exact Task.mapFailure_eq_ok hwork
  have hplan : Steps dir ⟨desk₁, .during call call.plan, portions⟩
      ⟨desk₂, .during call [], call.plan.foldl (note call) portions⟩ := by
    simpa using steps_of_workOff hdone [] portions
  rw [Task.say_bind, Task.run_pure] at hlast
  obtain ⟨-, rfl⟩ := Prod.mk.inj hlast
  exact ⟨journal, call, desk₁, hbegin,
    (ReflTransGen.head (.start hdir hsize hbegin) hplan).tail .finish⟩

/-- A call that fails after it has begun has done a first part of its plan, and is cut off there. -/
theorem steps_of_simulate_error {journal : Journal} {desk₁ : Desk} {f : Failure}
    (hdir : directory job = dir) (hsize : 1 ≤ job.batchSize)
    (hbegin : begin job now desk = (.ok (journal, call), desk₁))
    (h : simulate job now desk = (.error f, desk')) (ended : Option Call)
    (portions : List Portion) : ∃ xs rest, call.plan = xs ++ rest ∧
      workOff call.job xs desk₁ = (.ok (), desk') ∧
        Steps dir ⟨desk, .between ended, portions⟩
          ⟨desk', .between none, xs.foldl (note call) portions⟩ := by
  have hjob : call.job = job := (begin_eq_ok hbegin).2.1
  rw [simulate_eq, Task.bind_of_ok hbegin] at h
  simp only at h
  cases hwork : (workOff job call.plan).mapFailure Failure.file desk₁ with
  | mk r desk₂ =>
    cases r with
    | ok u =>
      -- after its plan a call does not fail
      rw [Task.bind_of_ok hwork, Task.say_bind, Task.run_pure] at h
      cases h
    | error e =>
      rw [Task.bind_of_error hwork] at h
      cases h
      obtain ⟨fault, hfails, -⟩ := Task.mapFailure_eq_error hwork
      obtain ⟨xs, a, rest, hplan, hdone, -⟩ := workOff_eq_error hfails
      rw [hjob]
      exact ⟨xs, a :: rest, hplan, hdone,
        steps_of_cut hdir hsize hbegin hplan (by rw [hjob]; exact hdone) ended portions⟩

end

/-! ## Where a call stands -/

/-- What a call does from a position on. -/
def Call.planFrom (call : Call) (c : Nat) : List Action :=
  Campaign.plan call.machine call.job call.inputs c

/-- What a call has still to do when the checkpoint is not behind the results: nothing, or what it has
not said yet of the next batch, the two writes, and the batches after it. -/
inductive Call.Ready (call : Call) (c : Nat) : List Action → Prop
  | done (h : call.inputs.length ≤ c) : call.Ready c []
  | batch (h : c < call.inputs.length) (es : List Event) :
      call.Ready c (es.map .say ++ .record (Journal.logText (call.batchAt c)) ::
        .checkpoint (c + (call.batchAt c).length : Nat) ::
          call.planFrom (c + (call.batchAt c).length))

omit [Host] in
/-- The plan from a position on goes batch by batch. -/
theorem Call.ready_planFrom (call : Call) (hsize : 1 ≤ call.job.batchSize) (c : Nat) :
    call.Ready c (call.planFrom c) := by
  obtain ⟨size, hnat⟩ := Int.eq_ofNat_of_zero_le (Int.le_of_lt hsize)
  have hpos : 0 < size := by omega
  have hplan : ∀ c, call.planFrom c = (Batch.split call.inputs c size).flatMap
      (actions call.machine call.job) := fun c => by rw [Call.planFrom, Campaign.plan, hnat]
  by_cases hc : c < call.inputs.length
  · have hlength := call.length_batchAt c
    rw [hnat, Int.toNat_natCast] at hlength
    have hlines : Journal.logText ((evaluations call.machine call.job
        ⟨c, (call.inputs.drop c).take size⟩).map Evaluation.toJson) =
          Journal.logText (call.batchAt c) := by
      rw [evaluations, List.map_map, Call.batchAt, hnat, Int.toNat_natCast]
      rfl
    have hnext : Batch.next ⟨c, (call.inputs.drop c).take size⟩ =
        (c + (call.batchAt c).length : Nat) := by
      simp only [Batch.next, List.length_take, List.length_drop, hlength]
      omega
    -- at the end of the list the batch may be shorter than the step to the next position
    have hrest : call.planFrom (c + size) = call.planFrom (c + (call.batchAt c).length) := by
      by_cases hlast : c + size < call.inputs.length
      · rw [hlength, Nat.min_eq_left (by omega)]
      · rw [hplan, hplan, Batch.split_of_le hpos (by omega), Batch.split_of_le hpos (by omega)]
    have hsplit : call.planFrom c =
        (said call.machine call.job ⟨c, (call.inputs.drop c).take size⟩).map .say ++
          .record (Journal.logText (call.batchAt c)) ::
            .checkpoint (c + (call.batchAt c).length : Nat) ::
              call.planFrom (c + (call.batchAt c).length) := by
      rw [← hrest, hplan, hplan, Batch.split_of_lt hpos hc, List.flatMap_cons, actions, hlines,
        hnext]
      simp [said]
    rw [hsplit]
    exact .batch hc _
  · rw [hplan, Batch.split_of_le hpos (by omega)]
    exact .done (by omega)

/-- The records when lines were appended and a count is in the checkpoint. -/
def recordsAfter (lines : List Json) (c : Nat) : ByteArray × Option ByteArray :=
  ((Journal.logText lines).toUTF8, Checkpoint.bytes? c)

/-- Where a history can stand, with the lines in the results and the count in the checkpoint. -/
inductive Sound (dir : String) : History → List Json → Nat → Prop
  | between {desk : Desk} {ended : Option Call} {portions : List Portion} {lines : List Json}
      {c : Nat} (hended : ∀ call, ended = some call → call.inputs.length ≤ c)
      (hrecords : recordsOf dir desk.tree = recordsAfter lines c)
      (hchain : Chained portions lines c) : Sound dir ⟨desk, .between ended, portions⟩ lines c
  | ready {desk : Desk} {portions : List Portion} {lines : List Json} {c : Nat} {call : Call}
      {rest : List Action} {lr lc : Location} (hdir : directory call.job = dir)
      (hsize : 1 ≤ call.job.batchSize) (hplaces : Located call.job desk.tree lr lc)
      (hrecords : recordsOf dir desk.tree = recordsAfter lines c)
      (hchain : Chained portions lines c) (hready : call.Ready c rest) :
      Sound dir ⟨desk, .during call rest, portions⟩ lines c
  /-- Between the two writes of a batch. -/
  | ahead {desk : Desk} {portions : List Portion} {lines : List Json} {c : Nat} {call : Call}
      {lr lc : Location} (hdir : directory call.job = dir) (hsize : 1 ≤ call.job.batchSize)
      (hplaces : Places call.job desk.tree lr lc)
      (hrecords : recordsOf dir desk.tree = recordsAfter (lines ++ call.batchAt c) c)
      (hchain : Chained portions lines c) (hlt : c < call.inputs.length) :
      Sound dir ⟨desk, .during call (.checkpoint (c + (call.batchAt c).length : Nat) ::
          call.planFrom (c + (call.batchAt c).length)),
        portions ++ [⟨call, Journal.logText (call.batchAt c), false⟩]⟩ (lines ++ call.batchAt c) c

namespace Sound

variable {dir : String} {h h' : History} {lines : List Json} {c : Nat}

theorem records (hs : Sound dir h lines c) :
    recordsOf dir h.desk.tree = recordsAfter lines c := by
  cases hs with
  | between _ hrecords => exact hrecords
  | ready _ _ _ hrecords => exact hrecords
  | ahead _ _ _ hrecords => exact hrecords

theorem chained (hs : Sound dir h lines c) : Chained h.portions lines c := by
  cases hs with
  | between _ _ hchain => exact hchain
  | ready _ _ _ _ hchain => exact hchain
  | ahead _ hsize _ _ hchain hlt => exact .lost hchain hsize hlt

/-- A call that has run to its end has come to the end of its inputs. -/
theorem le_of_ended {call : Call} (hs : Sound dir h lines c)
    (hended : h.phase = .between (some call)) : call.inputs.length ≤ c := by
  cases hs with
  | between hends =>
    cases hended
    exact hends call rfl
  | ready => cases hended
  | ahead => cases hended

/-- What a call does next is to say something, or to write the lines of the next batch. -/
theorem act_of_ready {desk desk' : Desk} {portions : List Portion} {call : Call} {a : Action}
    {rest : List Action} {lr lc : Location} (hdir : directory call.job = dir)
    (hsize : 1 ≤ call.job.batchSize) (hplaces : Located call.job desk.tree lr lc)
    (hrecords : recordsOf dir desk.tree = recordsAfter lines c)
    (hchain : Chained portions lines c) (hready : call.Ready c (a :: rest))
    (hperform : perform call.job a desk = (.ok (), desk')) :
    ∃ more, Sound dir ⟨desk', .during call rest, note call portions a⟩ (lines ++ more) c := by
  generalize hwork : a :: rest = work at hready
  cases hready with
  | done => cases hwork
  | batch hlt es =>
    cases es with
    | cons e es =>
      cases hwork
      cases hperform
      refine ⟨[], ?_⟩
      rw [List.append_nil]
      exact .ready hdir hsize hplaces hrecords hchain (.batch hlt es)
    | nil =>
      cases hwork
      obtain ⟨hplaces', hafter⟩ := hplaces.records_of_record hperform
      refine ⟨call.batchAt c, .ahead hdir hsize hplaces' ?_ hchain hlt⟩
      rw [← hdir, hafter, hdir, hrecords]
      simp [recordsAfter, Journal.logText_append]

/-- A call that has written its lines writes the position after them, and stands before the next
batch. -/
theorem act_of_ahead {desk desk' : Desk} {portions : List Portion} {call : Call} {lr lc : Location}
    (hdir : directory call.job = dir) (hsize : 1 ≤ call.job.batchSize)
    (hplaces : Places call.job desk.tree lr lc)
    (hrecords : recordsOf dir desk.tree = recordsAfter (lines ++ call.batchAt c) c)
    (hchain : Chained portions lines c) (hlt : c < call.inputs.length)
    (hperform : perform call.job (.checkpoint (c + (call.batchAt c).length : Nat)) desk =
      (.ok (), desk')) :
    ∃ c', c ≤ c' ∧ Sound dir ⟨desk', .during call (call.planFrom (c + (call.batchAt c).length)),
      note call (portions ++ [⟨call, Journal.logText (call.batchAt c), false⟩])
        (.checkpoint (c + (call.batchAt c).length : Nat))⟩ (lines ++ call.batchAt c) c' := by
  obtain ⟨hplaces', hafter⟩ := hplaces.records_of_checkpoint hperform
  have hpos : 0 < (call.batchAt c).length := by
    rw [call.length_batchAt]
    omega
  have hbytes : Checkpoint.bytes? (c + (call.batchAt c).length) =
      some (Checkpoint.text (c + (call.batchAt c).length : Nat)).toUTF8 := if_neg (by omega)
  rw [note, List.modifyLast_concat]
  refine ⟨_, Nat.le_add_right c _, .ready hdir hsize hplaces'.located ?_ (.saved hchain hsize hlt)
    (call.ready_planFrom hsize _)⟩
  rw [← hdir, hafter, hdir, hrecords, recordsAfter, recordsAfter, hbytes]

/-- A call that begins stands before the batch at the position of the checkpoint. -/
theorem ready_of_begin {desk desk' : Desk} {portions : List Portion} {job : Job} {now : Moment}
    {journal : Journal} {call : Call} (hdir : directory job = dir) (hsize : 1 ≤ job.batchSize)
    (hrecords : recordsOf dir desk.tree = recordsAfter lines c)
    (hchain : Chained portions lines c)
    (hbegin : begin job now desk = (.ok (journal, call), desk')) :
    Sound dir ⟨desk', .during call call.plan, portions⟩ lines c := by
  obtain ⟨⟨lr, lc, hplaces⟩, hrecords'⟩ := located_of_begin hbegin
  have hjob : call.job = job := (begin_eq_ok hbegin).2.1
  have hposition : call.completed = c :=
    completed_of_begin hbegin (by rw [hdir, hrecords, recordsAfter])
  have hplan : call.plan = call.planFrom c := by rw [Call.plan, hposition, Call.planFrom]
  rw [hdir, hrecords] at hrecords'
  rw [← hjob] at hdir hsize hplaces
  rw [hplan]
  exact .ready hdir hsize hplaces hrecords' hchain (call.ready_planFrom hsize c)

/-- One step takes no line away and does not move the checkpoint back. -/
theorem step (hs : Sound dir h lines c) (hstep : Step dir h h') :
    ∃ more c', c ≤ c' ∧ Sound dir h' (lines ++ more) c' := by
  -- a step that leaves the records as they are
  have hsame : ∀ {h'' : History}, Sound dir h'' lines c →
      ∃ more c', c ≤ c' ∧ Sound dir h'' (lines ++ more) c' := by
    intro h'' hs'
    exact ⟨[], c, Nat.le_refl c, by rw [List.append_nil]; exact hs'⟩
  cases hstep with
  | elsewhere hrecords' =>
    cases hs with
    | between hended hrecords hchain =>
      exact hsame (.between hended (hrecords'.trans hrecords) hchain)
  | start hdir hsize hbegin =>
    cases hs with
    | between _ hrecords hchain => exact hsame (ready_of_begin hdir hsize hrecords hchain hbegin)
  | act hperform =>
    cases hs with
    | ready hdir hsize hplaces hrecords hchain hready =>
      obtain ⟨more, hs'⟩ := act_of_ready hdir hsize hplaces hrecords hchain hready hperform
      exact ⟨more, c, Nat.le_refl c, hs'⟩
    | ahead hdir hsize hplaces hrecords hchain hlt =>
      obtain ⟨c', hle, hs'⟩ := act_of_ahead hdir hsize hplaces hrecords hchain hlt hperform
      exact ⟨[], c', hle, by rw [List.append_nil]; exact hs'⟩
  | finish =>
    generalize hdone : ([] : List Action) = rest at hs
    cases hs with
    | ready _ _ _ hrecords hchain hready =>
      cases hready with
      | batch => simp at hdone
      | done hle =>
        refine hsame (.between ?_ hrecords hchain)
        rintro call ⟨⟩
        exact hle
    | ahead => cases hdone
  | cut =>
    cases hs with
    | ready _ _ _ hrecords hchain => exact hsame (.between nofun hrecords hchain)
    | ahead _ hsize _ hrecords hchain hlt =>
      exact hsame (.between nofun hrecords (.lost hchain hsize hlt))

/-- Nor do many steps. -/
theorem steps (hs : Sound dir h lines c) (hsteps : Steps dir h h') :
    ∃ more c', c ≤ c' ∧ Sound dir h' (lines ++ more) c' := by
  induction hsteps with
  | refl => exact ⟨[], c, Nat.le_refl c, by rw [List.append_nil]; exact hs⟩
  | tail _ hstep ih =>
    obtain ⟨more, c', hle, hs'⟩ := ih
    obtain ⟨more', c'', hle', hs''⟩ := hs'.step hstep
    exact ⟨more ++ more', c'', Nat.le_trans hle hle', by rw [← List.append_assoc]; exact hs''⟩

end Sound

/-! ## The records at every moment -/

/-- What holds at a moment of a history, with the lines in the results and the count in the
checkpoint. -/
structure Safe (dir : String) (h : History) (lines : List Json) (c : Nat) : Prop where
  results : (recordsOf dir h.desk.tree).1 = (Journal.logText lines).toUTF8
  newlines : (Journal.logText lines).toList.count '\n' = lines.length
  checkpoint : (recordsOf dir h.desk.tree).2 = Checkpoint.bytes? c
  /-- The checkpoint is never ahead of the results. -/
  behind : c ≤ lines.length
  portions : Journal.logText lines = textOf h.portions
  /-- What is appended at once is a batch of its call. -/
  batches : ∀ p ∈ h.portions, ∃ start < p.call.inputs.length,
    p.text = Journal.logText (p.call.batchAt start)
  authored : (authors h.portions).length = lines.length
  /-- If the checkpoint was written after every portion, it counts the lines, and each line is the
  entry of the input with its number, of the call that appended it. -/
  exact : (∀ p ∈ h.portions, p.saved = true) → lines.length = c ∧
    ∀ (j : Nat) (call : Call), (authors h.portions)[j]? = some call →
      ∃ input, call.inputs[j]? = some input ∧ lines[j]? = some (call.entry input)
  /-- If the last call has run to its end, and all that was appended is of calls like it, then there
  is one line for each of its inputs, in order, and a surplus: the batches after which the checkpoint
  was not written. -/
  complete : ∀ call, h.phase = .between (some call) → (∀ p ∈ h.portions, p.call.Alike call) →
    textOf (h.portions.filter fun p => p.saved) =
        Journal.logText (call.inputs.map call.entry) ∧
      ∃ surplus, lines.Perm (call.inputs.map call.entry ++ surplus) ∧
        Journal.logText surplus = textOf (h.portions.filter fun p => !p.saved)

theorem Sound.safe {dir : String} {h : History} {lines : List Json} {c : Nat}
    (hs : Sound dir h lines c) : Safe dir h lines c where
  results := by rw [hs.records, recordsAfter]
  newlines := Journal.count_newline_logText lines
  checkpoint := by rw [hs.records, recordsAfter]
  behind := hs.chained.le
  portions := hs.chained.text
  batches := fun _ hp => hs.chained.batch hp
  authored := hs.chained.length_authors
  exact := hs.chained.entry_of_saved
  complete := by
    intro call hended halike
    obtain ⟨-, hsaved, hsurplus⟩ := hs.chained.exists_surplus halike
    rw [List.take_of_length_le (hs.le_of_ended hended)] at hsaved hsurplus
    exact ⟨hsaved, hsurplus⟩

/-- From a directory without records on, whatever calls there are and wherever they are cut off: at
every moment the checkpoint counts lines that are in the results, later there are the same lines and
perhaps more, and the checkpoint does not go back. A campaign that runs to its end is such a call. -/
theorem records_safe {dir : String} {desk : Desk} {h : History}
    (hfresh : recordsOf dir desk.tree = (ByteArray.empty, none))
    (hsteps : Steps dir (.fresh desk) h) :
    (∃ lines c, Safe dir h lines c ∧
      ∀ h', Steps dir h h' → ∃ more c', c ≤ c' ∧ Safe dir h' (lines ++ more) c') ∧
    ∀ job now path desk' ended, h.phase = .between ended → directory job = dir →
      1 ≤ job.batchSize → (simulate job now).on h.desk = (.ok path, desk') →
        ∃ call portions, call.job = job ∧
          Steps dir h ⟨desk', .between (some call), portions⟩ := by
  have hnew : Sound dir (.fresh desk) [] 0 := .between nofun hfresh .nil
  obtain ⟨lines, c, -, hs⟩ := hnew.steps hsteps
  refine ⟨⟨_, c, hs.safe, ?_⟩, ?_⟩
  · intro h' hlater
    obtain ⟨more, c', hle, hs'⟩ := hs.steps hlater
    exact ⟨more, c', hle, hs'.safe⟩
  · intro job now path desk' ended hphase hdir hsize hrun
    obtain ⟨journal, call, desk₁, hbegin, hcall⟩ :=
      steps_of_simulate hdir hsize hrun ended h.portions
    rw [← hphase] at hcall
    exact ⟨call, _, (begin_eq_ok hbegin).2.1, hcall⟩

/-! ## Between the two writes -/

omit [Host] in
theorem foldl_note_say (call : Call) (portions : List Portion) (es : List Event) :
    (es.map Action.say).foldl (note call) portions = portions := by
  induction es with
  | nil => rfl
  | cons e es ih => exact ih

/-- A campaign that can go on, and has inputs left, can be cut off between the two writes of a
batch. -/
theorem Resumable.steps_of_cut_between_writes {job : Job} {tree made : FileTree} {m : Machine}
    {inputs : List String} {c : Nat} {lr lc : Location}
    (h : Resumable job tree made m inputs c) (hp : Places job made lr lc) (hw : Writable lr lc)
    (hsize : 1 ≤ job.batchSize) (hlt : c < inputs.length) (now : Moment) (console : Array Event)
    (ended : Option Call) (portions : List Portion) : ∃ desk,
      Steps (directory job) ⟨⟨tree, console⟩, .between ended, portions⟩ ⟨desk, .between none,
        portions ++ [⟨⟨job, m, inputs, c⟩,
          Journal.logText (Call.batchAt ⟨job, m, inputs, c⟩ c), false⟩]⟩ := by
  have hbegin := h.begin hp hsize now console
  have hready := Call.ready_planFrom ⟨job, m, inputs, c⟩ hsize c
  generalize hplan : Call.planFrom ⟨job, m, inputs, c⟩ c = work at hready
  cases hready with
  | done hle => exact absurd hlt (Nat.not_lt.mpr hle)
  | batch _ es =>
    let lines := Journal.logText (Call.batchAt ⟨job, m, inputs, c⟩ c)
    have hwork : workOff job (es.map .say ++ [.record lines])
        ⟨made, console.push (opening inputs (inputs.length - c))⟩ =
          (.ok (), ⟨made.put lr (.file (made.bytesAt lr ++ lines.toUTF8)),
            console.push (opening inputs (inputs.length - c)) ++ es.toArray⟩) := by
      rw [workOff_append (workOff_say _ _ _), workOff_cons,
        Task.bind_of_ok (hp.perform_record hw.results _ _), workOff_nil]
    rw [List.append_cons] at hplan
    have hsteps := steps_of_cut rfl hsize hbegin hplan hwork ended portions
    rw [List.foldl_append, foldl_note_say] at hsteps
    exact ⟨_, hsteps⟩

end

section

attribute [local instance] Host.usual

theorem recordsOf_detourTree : recordsOf "p" detourTree = (ByteArray.empty, none) := by
  obtain ⟨m, hresumable⟩ := resumable_detourJob
  have hfolder := (hresumable 0 1024 (by decide)).folder
  have hdir : directory (detourJob 0 1024) = "p" := directory_detours 0 1024
  have hresults := nodeAt?_under_detours 0 1024 plainName_results rfl
  have hcheckpoint := nodeAt?_under_detours 0 1024 plainName_checkpoint rfl
  rw [hdir] at hfolder hresults hcheckpoint
  simp only [recordsOf, hfolder, held, fileOf?_of_nodeAt?_eq_none hresults,
    fileOf?_of_nodeAt?_eq_none hcheckpoint, Option.getD_none]

/-- The records of a call that is cut off between the two writes of its only batch. -/
theorem records_safe_between_writes : ∃ (call : Call) (desk : Desk),
    recordsOf "p" detourTree = (ByteArray.empty, none) ∧
    Steps "p" (.fresh ⟨detourTree, #[]⟩)
      ⟨desk, .between none, [⟨call, Journal.logText (call.batchAt 0), false⟩]⟩ ∧
    call.inputs = ["aa"] ∧
    ∃ lines c, Safe "p" ⟨desk, .between none, [⟨call, Journal.logText (call.batchAt 0), false⟩]⟩
        lines c ∧
      ∀ h', Steps "p" ⟨desk, .between none, [⟨call, Journal.logText (call.batchAt 0), false⟩]⟩ h' →
        ∃ more c', c ≤ c' ∧ Safe "p" h' (lines ++ more) c' := by
  obtain ⟨m, hresumable⟩ := resumable_detourJob
  have h := hresumable 0 1024 (by decide)
  have hlen : (checkpointPath (detourJob 0 1024)).utf8ByteSize ≤ longestPath := by
    rw [utf8ByteSize_checkpointPath_detours]
    decide
  have hdir : directory (detourJob 0 1024) = "p" := directory_detours 0 1024
  obtain ⟨lr, lc, hp, hw⟩ := h.places hlen
  obtain ⟨desk, hsteps⟩ := h.steps_of_cut_between_writes hp hw (by decide) (by decide)
    ⟨1970, 1, 1, 0, 0, 0, 0⟩ #[] none []
  rw [hdir] at hsteps
  exact ⟨_, desk, recordsOf_detourTree, hsteps, rfl, (records_safe recordsOf_detourTree hsteps).1⟩

end

end Campaign

end TapeMachine
