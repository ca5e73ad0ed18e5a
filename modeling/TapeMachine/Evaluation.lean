import TapeMachine.Json.Basic
import TapeMachine.Machine
import TapeMachine.Result

/-!
# Evaluations

An input is evaluated by running the machine on it within a budget of steps. However the run ends,
the evaluation is a record of it that can be written as one line of a log.

## Main statements

* `Machine.begin_eq_ok` — a run begins in the start state on a fresh tape
* `Machine.evaluate_of_create_error` — an input that does not fit is recorded without a run
* `Machine.prepare_eq_ok`, `Machine.tryEvaluate_of_le` — what memory holds is no obstacle
-/

namespace TapeMachine

/-- How the evaluation of an input ended. -/
inductive Outcome where
  | halted (r : Result)
  /-- The budget was used up before the run ended. -/
  | unfinished (tape : String) (head : Int) (steps : Nat)
  /-- The run could not begin or could not go on. -/
  | failed (message : String) (steps : Nat)
  deriving DecidableEq, Repr

/-- Why a run does not begin. -/
inductive Obstacle where
  /-- There is no tape for the contents and the size. -/
  | tape (e : TapeError)
  /-- There would be one, but no memory holds it. -/
  | memory (size : Int)
  deriving DecidableEq, Repr

/-- The record of an input. -/
structure Evaluation where
  input : String
  outcome : Outcome
  deriving DecidableEq, Repr

/-- The size of a tape, unless another is asked for. -/
def defaultTapeSize : Int := 1024

/-- The budget of steps, unless another is asked for. -/
def defaultMaxSteps : Int := 1000000

namespace Outcome

/-- The outcome of a run within a budget. -/
def ofRun : Configuration × Status → Outcome
  | (c, .running) => .unfinished c.tape.contents c.head c.steps
  | (c, .halted accepted) => .halted (Result.ofFinal c accepted)
  | (c, .failed fault) => .failed (fault.message c) c.steps

end Outcome

namespace Machine

/-- The first configuration of a run of the machine. -/
def begin (m : Machine) (contents : String) (size head : Int) : Except TapeError Configuration :=
  Configuration.begin m.start contents size head

theorem begin_eq_ok {m : Machine} {contents : String} {size head : Int} {c : Configuration} :
    m.begin contents size head = .ok c ↔ ∃ tape, Tape.create contents size = .ok tape ∧
      c = ⟨tape, head, m.start, 0⟩ := by
  unfold begin Configuration.begin
  cases Tape.create contents size with
  | error e => simp [Except.map]
  | ok tape => simp [Except.map, Configuration.onTape, eq_comm]

/-- The record of an input on a tape of a size, within a budget of steps. -/
def evaluate (m : Machine) (input : String) (size budget : Int) : Evaluation :=
  match m.begin input size 0 with
  | .error e => ⟨input, .failed e.message 0⟩
  | .ok c => ⟨input, .ofRun (runBounded m.program budget c)⟩

theorem evaluate_of_create_error {m : Machine} {input : String} {size budget : Int}
    {e : TapeError} (h : Tape.create input size = .error e) :
    m.evaluate input size budget = ⟨input, .failed e.message 0⟩ := by
  simp [evaluate, begin, Configuration.begin, h, Except.map]

/-! ## Memory -/

variable [Host]

/-- The first configuration of a run, if a memory holds its tape. -/
def prepare (m : Machine) (contents : String) (size head : Int) : Except Obstacle Configuration :=
  -- contents that do not fit are found out before there is a tape
  if contents.length < size ∧ Host.mostCells < size then .error (.memory size)
  else (m.begin contents size head).mapError .tape

/-- Follows a run on a fresh tape to its end. -/
def run (m : Machine) (contents : String) (size head : Int) :
    Except Obstacle (Configuration × Status) :=
  (m.prepare contents size head).map (TapeMachine.run m.program)

/-- The record of an input, if a memory holds its tape. That it does not fit is recorded; that no
memory holds its tape is not. -/
def tryEvaluate (m : Machine) (input : String) (size budget : Int) : Except Obstacle Evaluation :=
  if input.length < size ∧ Host.mostCells < size then .error (.memory size)
  else .ok (m.evaluate input size budget)

theorem prepare_of_le {m : Machine} {contents : String} {size head : Int}
    (h : size ≤ Host.mostCells) :
    m.prepare contents size head = (m.begin contents size head).mapError .tape :=
  if_neg fun hlt => absurd hlt.2 (by omega)

/-- A run begins if there is a tape for it and a memory holds the tape. -/
theorem prepare_eq_ok {m : Machine} {contents : String} {size head : Int} {c : Configuration} :
    m.prepare contents size head = .ok c ↔
      size ≤ Host.mostCells ∧ m.begin contents size head = .ok c := by
  constructor
  · intro h
    unfold prepare at h
    split at h
    · cases h
    · next hn =>
      cases hb : m.begin contents size head with
      | error e =>
        rw [hb] at h
        cases h
      | ok c' =>
        rw [hb] at h
        cases h
        obtain ⟨tape, ht, -⟩ := begin_eq_ok.mp hb
        have hfits := (Tape.create_eq_ok.mp ht).1
        exact ⟨by omega, rfl⟩
  · rintro ⟨hsize, hb⟩
    rw [prepare_of_le hsize, hb]
    rfl

theorem tryEvaluate_of_le {m : Machine} {input : String} {size budget : Int}
    (h : size ≤ Host.mostCells) : m.tryEvaluate input size budget = .ok (m.evaluate input size budget) :=
  if_neg fun hlt => absurd hlt.2 (by omega)

end Machine

namespace Evaluation

/-- The fields of a record, in order. -/
def toJson (e : Evaluation) : Json :=
  let entry (halted : Bool) (accepted : Json) (steps : Int) (tape head error : Json) : Json :=
    .object [("input", .string e.input), ("halted", .bool halted), ("accepted", accepted),
      ("steps", .int steps), ("tape", tape), ("head", head), ("error", error)]
  match e.outcome with
  | .halted r => entry true (.bool r.accepted) r.steps (.string r.tape) (.int r.head) .null
  | .unfinished tape head steps => entry false .null steps (.string tape) (.int head) .null
  | .failed message steps => entry false .null steps .null .null (.string message)

end Evaluation

end TapeMachine
