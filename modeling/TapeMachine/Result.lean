import TapeMachine.Run

/-!
# Results

What a run that halted leaves behind.

## Main statements

* `Result.describe_eq` — the description is the tape, the marker and the verdict
-/

namespace TapeMachine

/-- The outcome of a run that halted. -/
structure Result where
  tape : String
  head : Int
  accepted : Bool
  steps : Int
  deriving DecidableEq, Repr

namespace Result

/-- The result of a run that halted in a configuration. -/
def ofFinal (c : Configuration) (accepted : Bool) : Result :=
  { tape := c.tape.contents, head := c.head, accepted, steps := c.steps }

/-- The result of a run, if it halted. -/
def ofRun? : Configuration × Status → Option Result
  | (c, .halted accepted) => some (ofFinal c accepted)
  | _ => none

def verdict (r : Result) : String := if r.accepted then "Accepted" else "Rejected"

/-- The tape and the verdict as the user sees them. -/
def describe (r : Result) : String := Tape.render (symbolsOf r.tape) r.head ++ "\n" ++ r.verdict

theorem describe_eq (r : Result) : r.describe =
    String.join (Tape.shown (symbolsOf r.tape) r.head) ++ "\n" ++ Tape.marker r.head ++ "\n" ++
      r.verdict := rfl

end Result

end TapeMachine
