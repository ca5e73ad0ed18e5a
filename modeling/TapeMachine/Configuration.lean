import TapeMachine.State
import TapeMachine.Tape

/-!
# Configurations

All that a single run changes: the tape, the head, the state and the count of steps.

## Main statements

* `Configuration.inBounds_iff` — when the head is on the tape
* `Configuration.scanned?_eq_none` — nothing is scanned exactly if the head is off the tape
-/

namespace TapeMachine

/-- A moment of a run. -/
structure Configuration where
  tape : Tape
  head : Int
  state : State
  steps : Nat
  deriving DecidableEq, Inhabited

namespace Configuration

/-- The first configuration of a run on given cells. -/
def onTape (tape : Tape) (head : Int) (state : State) : Configuration := ⟨tape, head, state, 0⟩

/-- The first configuration of a run on a fresh tape. -/
def begin (state : State) (contents : String) (size head : Int) :
    Except TapeError Configuration :=
  (Tape.create contents size).map fun tape => onTape tape head state

def inBounds (c : Configuration) : Bool := 0 ≤ c.head && c.head < c.tape.size

theorem inBounds_iff {c : Configuration} :
    c.inBounds = true ↔ 0 ≤ c.head ∧ c.head < c.tape.size := by
  simp [inBounds]

/-- The symbol under the head, if the head is on the tape. -/
def scanned? (c : Configuration) : Option Symbol :=
  if 0 ≤ c.head then c.tape[c.head.toNat]? else none

theorem scanned?_eq_none {c : Configuration} : c.scanned? = none ↔ c.inBounds = false := by
  unfold scanned? inBounds
  by_cases h : 0 ≤ c.head
  · simp [h]
  · simp [h]

/-- The tape and the head as the user sees them. -/
def render (c : Configuration) : String := Tape.render c.tape.toList c.head

end Configuration

end TapeMachine
