import TapeMachine.CommandLine
import TapeMachine.Proofs.Resume

/-!
# What success means

A campaign that comes to its end announces that all inputs were simulated. From the beginning, with
batches of a positive size, it has then written a line for each input. But a caller or a command line
can also ask for a size below zero, which the settings refuse. Then there are no batches at all, and the
same is announced although no line was written.

## Main statements

* `Batch.split_of_neg` — from the beginning there are no batches of a size below zero
* `Draft.simulate_eq_ok` — a draft that came to its end is the campaign over what it knew
* `Resumable.simulate_of_neg`, `Resumable.simulate_of_zero` — what comes of a size that is not positive
* `Draft.done_iff_positive` — which campaigns that announced success have written all lines
* `success_without_lines` — one that has written none
-/

namespace TapeMachine

/-! ## Batches of a size below zero -/

/-- Steps backwards lead to nothing ahead. -/
theorem positions_of_neg {start stop step : Int} (hs : step < 0) (h : start ≤ stop) :
    positions start stop step = [] := by
  have hlt : (start - stop - step - 1).fdiv (-step) < 1 := by
    rw [Int.fdiv_eq_ediv_of_nonneg _ (by omega)]
    exact Int.ediv_lt_of_lt_mul (by omega) (by omega)
  have hcount : ((start - stop - step - 1).fdiv (-step)).toNat = 0 := by omega
  have hn : ¬(0 < step) := by omega
  simp only [positions, if_neg hn, if_pos hs, hcount, List.range_zero, List.map_nil]

theorem Batch.split_of_neg {size : Int} (hs : size < 0) (inputs : List String) :
    split inputs 0 size = [] := by
  rw [split, positions_of_neg hs (by omega), List.map_nil]

namespace Campaign

open FileTree

section

variable [Host] {job : Job} {m : Machine} {tree made : FileTree} {inputs : List String} {c : Nat}
  {lr lc : Location} {now : Moment}

/-! ## Drafts that came to their end -/

namespace Draft

variable {d : Draft} {desk final : Desk}

omit [Host] in
theorem of_need_bind {α β : Type} {part : Except Failure α} {next : Unit → Task Failure β} {b : β}
    (h : (need part >>= next) desk = (.ok b, final)) :
    (∃ a, part = .ok a) ∧ next () desk = (.ok b, final) := by
  cases part with
  | error f => cases h
  | ok a => exact ⟨⟨a, rfl⟩, h⟩

/-- If no input lacked anything, all batches were worked off. -/
theorem workOff_of_workOn {batches : List Batch} (h : d.workOn m batches desk = (.ok (), final)) :
    workOff d.filled (batches.flatMap (actions m d.filled)) desk = (.ok (), final) := by
  induction batches generalizing desk with
  | nil =>
    cases h
    rfl
  | cons b rest ih =>
    cases hlacks : b.inputs.findSome? (d.lacks? m) with
    | some f =>
      rw [workOn_of_lacks hlacks] at h
      cases h
    | none =>
      rw [workOn, hlacks] at h
      obtain ⟨u, desk₁, hfirst, hrest⟩ := Task.bind_eq_ok h
      rw [List.flatMap_cons, workOff_append (Task.mapFailure_eq_ok hfirst)]
      exact ih hrest

/-- A draft that came to its end knew the size of its batches, and is the campaign over what it
knew. -/
theorem simulate_eq_ok {path : String} (h : d.simulate now desk = (.ok path, final)) :
    d.batchSize = .ok d.filled.batchSize ∧
      Campaign.simulate d.filled now desk = (.ok path, final) := by
  have known : ∀ {size : Int}, d.batchSize = .ok size → d.batchSize = .ok d.filled.batchSize := by
    intro size hsize
    rw [filled, hsize]
    rfl
  unfold simulate at h
  split at h
  · next hcomplete =>
    refine ⟨?_, h⟩
    cases hsize : d.batchSize with
    | ok size => exact hsize ▸ known hsize
    | error f => simp [complete, hsize, Except.isOk, Except.toBool] at hcomplete
  · unfold attempt at h
    obtain ⟨-, h⟩ := of_need_bind h
    obtain ⟨m, d₁, hmachine, h⟩ := Task.bind_eq_ok h
    obtain ⟨-, h⟩ := of_need_bind h
    obtain ⟨journal, d₂, hjournal, h⟩ := Task.bind_eq_ok h
    obtain ⟨-, h⟩ := of_need_bind h
    obtain ⟨inputs, d₃, hinputs, h⟩ := Task.bind_eq_ok h
    obtain ⟨progress, d₄, hprogress, h⟩ := Task.bind_eq_ok h
    obtain ⟨view, d₅, hview, h⟩ := Task.bind_eq_ok h
    obtain ⟨u, d₆, hsay, h⟩ := Task.bind_eq_ok h
    obtain ⟨⟨size, hsize⟩, h⟩ := of_need_bind h
    obtain ⟨completed, d₇, hcompleted, h⟩ := Task.bind_eq_ok h
    obtain ⟨v, d₈, hwork, h⟩ := Task.bind_eq_ok h
    have hplan : workOff d.filled (plan m d.filled inputs completed) d₇ = (.ok v, d₈) :=
      workOff_of_workOn hwork
    refine ⟨known hsize, ?_⟩
    unfold Campaign.simulate
    rw [Task.bind_of_ok hmachine, Task.bind_of_ok hjournal, Task.bind_of_ok hinputs,
      Task.bind_of_ok hprogress, Task.bind_of_ok hview, Task.bind_of_ok hsay,
      Task.bind_of_ok hcompleted, Task.bind_of_ok (Task.mapFailure_of_ok hplan)]
    exact h

end Draft

/-! ## Sizes that are not positive -/

/-- With a size below zero a campaign from the beginning announces success and does nothing else. -/
theorem Resumable.simulate_of_neg (h : Resumable job tree made m inputs 0)
    (hp : Places job made lr lc) (hs : job.batchSize < 0) (now : Moment) (console : Array Event) :
    Campaign.simulate job now ⟨tree, console⟩ = (.ok (Path.tidy (resultsPath job)),
      ⟨made, (console.push (opening inputs inputs.length)).push success⟩) := by
  have hplan : plan m job inputs (0 : Nat) = [] := by
    rw [plan, Int.natCast_zero, Batch.split_of_neg hs, List.flatMap_nil]
  have hposition : startingPosition job.batchSize (.count (0 : Nat)) = .ok ((0 : Nat) : Int) := by
    unfold startingPosition
    simp only
    rw [if_neg (by omega)]
  unfold Campaign.simulate
  rw [Task.bind_of_ok (h.loadMachine _), Task.bind_of_ok (h.openJournal now _),
    Task.bind_of_ok (h.loadInputs _), Task.bind_of_ok (h.loadProgress hp _),
    Task.ofExcept_bind (overview_count inputs 0), Task.say_bind,
    Task.ofExcept_bind hposition, hplan,
    Task.bind_of_ok (Task.mapFailure_of_ok (workOff_nil job _)), Task.say_bind, mainLog_results,
    Task.run_pure]
  rfl

/-- With a size of zero no campaign comes to its end. -/
theorem Resumable.simulate_of_zero (h : Resumable job tree made m inputs c)
    (hp : Places job made lr lc) (hs : job.batchSize = 0) (now : Moment) (console : Array Event) :
    (Campaign.simulate job now ⟨tree, console⟩).1 = .error .emptyBatches := by
  unfold Campaign.simulate
  rw [Task.bind_of_ok (h.loadMachine _), Task.bind_of_ok (h.openJournal now _),
    Task.bind_of_ok (h.loadInputs _), Task.bind_of_ok (h.loadProgress hp _),
    Task.ofExcept_bind (overview_count inputs c), Task.say_bind, hs]
  rfl

/-! ## What was done -/

omit [Host] in
/-- Lines that are no bytes are lines of no inputs. -/
theorem logText_entries_eq_empty :
    (Journal.logText (entries m job inputs)).toUTF8 = ByteArray.empty ↔ inputs = [] := by
  constructor
  · intro h
    have hnone : Journal.logText (entries m job inputs) = "" := String.toByteArray_inj.mp h
    have hcount := Journal.count_newline_logText (entries m job inputs)
    rw [hnone, entries, List.length_map] at hcount
    exact List.length_eq_zero_iff.mp hcount.symm
  · rintro rfl
    rfl

/-- A campaign from the beginning that came to its end has announced success, whatever size its batches
were to have. It has written all lines exactly if the size is positive or there are no inputs; with a
size below zero it has written nothing. -/
theorem Draft.done_iff_positive {d : Draft} {path : String} {console : Array Event} {final : Desk}
    (h : Resumable d.filled tree made m inputs 0)
    (hnew : held made (resultsPath d.filled) = ByteArray.empty)
    (hdone : d.simulate now ⟨tree, console⟩ = (.ok path, final)) :
    ∃ size, d.batchSize = .ok size ∧ size ≠ 0 ∧ path = Path.tidy (resultsPath d.filled) ∧
      final.console.back? = some success ∧
      (held final.tree (resultsPath d.filled) =
        (Journal.logText (entries m d.filled inputs)).toUTF8 ↔ 0 < size ∨ inputs = []) ∧
      (0 < size → Completed d.filled m inputs 0 made final.tree) ∧
      (size < 0 → final.tree = made) := by
  obtain ⟨hsize, hdone⟩ := simulate_eq_ok hdone
  have hlen : (checkpointPath d.filled).utf8ByteSize ≤ longestPath := by
    by_contra hlong
    rw [h.simulate_of_long_path (Nat.not_le.mp hlong)] at hdone
    cases hdone
  obtain ⟨lr, lc, hp, hw⟩ := h.places hlen
  generalize d.filled = job at *
  refine ⟨job.batchSize, hsize, ?_⟩
  rcases Int.lt_trichotomy job.batchSize 0 with hneg | hzero | hpos
  · rw [h.simulate_of_neg hp hneg] at hdone
    obtain ⟨hpath, rfl⟩ := Prod.mk.inj hdone
    refine ⟨by omega, (Except.ok.inj hpath).symm, Array.back?_push .., ?_, by omega, fun _ => rfl⟩
    rw [hnew, eq_comm, logText_entries_eq_empty]
    exact ⟨Or.inr, fun hor => hor.resolve_left (by omega)⟩
  · have herror := h.simulate_of_zero hp hzero now console
    rw [hdone] at herror
    cases herror
  · obtain ⟨size, hb⟩ := Int.eq_ofNat_of_zero_le (Int.le_of_lt hpos)
    rw [h.simulate hp hw hb (by omega)] at hdone
    obtain ⟨hpath, rfl⟩ := Prod.mk.inj hdone
    have hcompleted := hp.completed (m := m) inputs 0
    refine ⟨by omega, (Except.ok.inj hpath).symm, ?_, ?_, fun _ => hcompleted, by omega⟩
    · rw [Array.back?_eq_getElem?]
      simp
    · refine ⟨fun _ => Or.inl hpos, fun _ => ?_⟩
      rcases Nat.eq_zero_or_pos inputs.length with hnil | hsome
      · rw [hcompleted.unchanged (by omega), hnew, eq_comm, logText_entries_eq_empty]
        exact List.length_eq_zero_iff.mp hnil
      · rw [held, hcompleted.results hsome, hnew]
        simp

end

/-! ## A job with one input -/

section

attribute [local instance] Host.usual

/-- A job with one input, in batches of a size. -/
def oneInputJob (size : Int) : Job := withBatches (detourJob 0 1024) size

/-- The job can go on from the beginning, and its files have their places. -/
theorem resumable_oneInputJob (size : Int) : ∃ m,
    Resumable (oneInputJob size) detourTree detourMade m ["aa"] 0 ∧
      ∃ lr lc, Places (oneInputJob size) detourMade lr lc ∧ Writable lr lc := by
  obtain ⟨m, hresumable⟩ := resumable_detourJob
  have h : Resumable (oneInputJob size) detourTree detourMade m ["aa"] 0 :=
    (hresumable 0 1024 (by decide)).withBatches size
  have hlen : (checkpointPath (oneInputJob size)).utf8ByteSize = 5 * 0 + 25 :=
    utf8ByteSize_checkpointPath_detours 0 1024
  exact ⟨m, h, h.places (Nat.le_trans (Nat.le_of_eq hlen) (by decide))⟩

/-- There are no results of the job at first. -/
theorem held_results_oneInputJob (size : Int) :
    held detourMade (resultsPath (oneInputJob size)) = ByteArray.empty := by
  have hpath : resultsPath (oneInputJob size) = resultsPath (detourJob 0 1024) := rfl
  rw [hpath]
  decide +kernel

/-- With batches of one input the job writes the line of its input. -/
theorem Draft.done_iff_positive_ones : ∃ m path final,
    Resumable (Draft.ofJob (oneInputJob 1)).filled detourTree detourMade m ["aa"] 0 ∧
      held detourMade (resultsPath (Draft.ofJob (oneInputJob 1)).filled) = ByteArray.empty ∧
      (Draft.ofJob (oneInputJob 1)).simulate ⟨2024, 1, 2, 3, 4, 5, 678901⟩ ⟨detourTree, #[]⟩ =
        (.ok path, final) ∧
      held final.tree (resultsPath (oneInputJob 1)) =
        (Journal.logText (entries m (oneInputJob 1) ["aa"])).toUTF8 := by
  obtain ⟨m, h, lr, lc, hp, hw⟩ := resumable_oneInputJob 1
  have hmemory : (oneInputJob 1).tapeSize ≤ Host.mostCells := by decide
  have hfilled : (Draft.ofJob (oneInputJob 1)).filled = oneInputJob 1 := Draft.filled_ofJob hmemory
  have hone : (oneInputJob 1).batchSize = (1 : Nat) := rfl
  have hrun := h.simulate hp hw hone (by decide) ⟨2024, 1, 2, 3, 4, 5, 678901⟩ #[]
  rw [← Draft.simulate_ofJob hmemory] at hrun
  have hnew := held_results_oneInputJob 1
  rw [← hfilled] at h hnew
  obtain ⟨size, hsize, -, -, -, hlines, -⟩ := Draft.done_iff_positive h hnew hrun
  have hpos : (1 : Int) = size := Except.ok.inj hsize
  rw [hfilled] at hlines
  exact ⟨m, _, _, h, hnew, hrun, hlines.mpr (Or.inl (by omega))⟩

/-- Whether a task ended with a value, on a desk that passes a test. -/
def succeedsWith {ε α : Type} (test : Desk → Bool) (r : Except ε α × Desk) : Bool :=
  r.1.isOk && test r.2

theorem exists_of_succeedsWith {ε α : Type} {test : Desk → Bool} {r : Except ε α × Desk}
    (h : succeedsWith test r = true) : ∃ a d, r = (.ok a, d) ∧ test d = true := by
  obtain ⟨outcome, d⟩ := r
  obtain ⟨hok, ht⟩ := Bool.and_eq_true_iff.mp h
  cases outcome with
  | error e => cases hok
  | ok a => exact ⟨a, d, rfl, ht⟩

/-- The words of a command line that asks for the job in batches of minus one. -/
def minusOneArguments : List String :=
  ["--program", "p.tm", "--alphabet", "a", "--inputs", "in.txt", "--output", "", "--batch_size", "-1"]

/-- With a size of minus one the job announces success and writes nothing, called or asked for on a
command line. -/
theorem success_without_lines : ∃ m,
    Resumable (oneInputJob (-1)) detourTree detourMade m ["aa"] 0 ∧
    held detourMade (resultsPath (oneInputJob (-1))) = ByteArray.empty ∧
    (∀ now console, ∃ path final,
      (Draft.ofJob (oneInputJob (-1))).simulate now ⟨detourTree, console⟩ = (.ok path, final) ∧
        final.console.back? = some success ∧
        held final.tree (resultsPath (oneInputJob (-1))) = ByteArray.empty) ∧
    ∃ path final, CommandLine.campaign minusOneArguments ⟨2024, 1, 2, 3, 4, 5, 678901⟩
        ⟨detourTree, #[]⟩ = (.ok path, final) ∧
      final.console.back? = some success ∧
      held final.tree (resultsPath (oneInputJob (-1))) = ByteArray.empty := by
  obtain ⟨m, h, lr, lc, hp, -⟩ := resumable_oneInputJob (-1)
  refine ⟨m, h, held_results_oneInputJob (-1), ?_, ?_⟩
  · intro now console
    rw [Draft.simulate_ofJob (by decide), h.simulate_of_neg hp (by decide)]
    exact ⟨_, _, rfl, Array.back?_push .., held_results_oneInputJob (-1)⟩
  · let test (d : Desk) : Bool := d.console.back? = some success ∧
      held d.tree (resultsPath (oneInputJob (-1))) = ByteArray.empty
    have htest : succeedsWith test (CommandLine.campaign minusOneArguments
        ⟨2024, 1, 2, 3, 4, 5, 678901⟩ ⟨detourTree, #[]⟩) = true := by decide +kernel
    obtain ⟨path, final, hrun, hfound⟩ := exists_of_succeedsWith htest
    exact ⟨path, final, hrun, of_decide_eq_true hfound⟩

end

end Campaign

end TapeMachine
