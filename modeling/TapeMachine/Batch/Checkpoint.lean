import TapeMachine.Json.Reader
import TapeMachine.Text.Grouped

/-!
# Checkpoints

A checkpoint is a small JSON file that says how many inputs have been worked off.

## Main statements

* `Checkpoint.ofJson_count` — the count that a checkpoint holds is read from it
* `Checkpoint.pending?_count` — from a position on, the inputs after it are left
-/

namespace TapeMachine

namespace Checkpoint

/-- Why a checkpoint cannot be used. -/
inductive Fault where
  /-- The file's value is no object. -/
  | notAnObject
  /-- The count is no number at all. -/
  | notANumber
  deriving DecidableEq, Repr

/-- How far the work has come, as a file says it. -/
inductive Progress where
  | count (n : Int)
  /-- A number that is no count: it can be announced, but no work can start there. -/
  | fraction (x : Binary64)
  deriving DecidableEq, Repr

/-- The name of the field with the count. -/
def fieldName : String := "completed"

/-- The progress that a file's value says; none is said if the field is missing. The truth values
count as one and zero. -/
def ofJson : Json → Except Fault Progress
  | .object fields =>
    match (Json.object fields).field? fieldName with
    | none => .ok (.count 0)
    | some (.int n) => .ok (.count n)
    | some (.bool b) => .ok (.count (if b then 1 else 0))
    | some (.float x) => .ok (.fraction x)
    | some _ => .error .notANumber
  | _ => .error .notAnObject

theorem ofJson_count (n : Int) : ofJson (.object [(fieldName, .int n)]) = .ok (.count n) := rfl

def text (completed : Int) : String :=
  "\x7b\n    \"" ++ fieldName ++ "\": " ++ Int.repr completed ++ "\n\x7d"

/-- A number with commas between the thousands of its whole part. -/
def groupedFraction (x : Binary64) : String :=
  let cs := x.text.toList
  let (sign, digits) := match cs with
    | '-' :: rest => (['-'], rest)
    | _ => ([], cs)
  if digits.all fun c => c.isDigit || c == '.' then
    let whole := digits.takeWhile Char.isDigit
    String.ofList (sign ++ Text.groupDigits whole ++ digits.dropWhile Char.isDigit)
  else x.text

/-- How many inputs are left, as announced: never less than zero. A count that is too long is not
announced. No list is that long, so it can only come from a position before the first input. -/
def pending? (total : Nat) : Progress → Option String
  | .count n =>
    let left : Int := max (total - n) 0
    if n < 0 ∧ (Nat.pow 10 Text.maxDigits : Nat) ≤ left then none else some (Text.grouped left)
  | .fraction x =>
    let left := x.subFromInt total
    some (if left.isNegative then "0" else groupedFraction left)

theorem pending?_count (total n : Nat) :
    pending? total (.count n) = some (Text.grouped ((total - n : Nat) : Int)) := by
  have hleft : max ((total : Int) - n) 0 = ((total - n : Nat) : Int) := by omega
  have hn : ¬ ((n : Int) < 0) := by omega
  simp only [pending?, hn, false_and, if_false, hleft]

end Checkpoint

end TapeMachine
