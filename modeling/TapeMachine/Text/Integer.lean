import TapeMachine.Text.Blank
import TapeMachine.Text.Digit

/-!
# Integers typed by a user

White space around the number is ignored, the ASCII separators U+001C to U+001F apart. One sign may
precede the number, its digits may be of any script and single underscores may stand between digits.
A number of more than 4300 digits is refused.

## Main statements

* `integer?_underscore` — what the underscore may and may not do
-/

namespace TapeMachine.Text

/-- The most digits a number may have. -/
def maxDigits : Nat := 4300

/-- The values of digits with single underscores between them; `none` for anything else. -/
def digitValues? : List Char → Option (List Nat)
  | [] => none
  | [c] => (digitValue? c).map fun d => [d]
  | c :: '_' :: rest => do return (← digitValue? c) :: (← digitValues? rest)
  | c :: rest => do return (← digitValue? c) :: (← digitValues? rest)

/-- The number written by decimal digits, the most significant first. -/
def ofDigits (ds : List Nat) : Nat := ds.foldl (fun n d => 10 * n + d) 0

/-- The number written by digits and underscores, if it is not too long. -/
def natural? (cs : List Char) : Option Nat := do
  let ds ← digitValues? cs
  if ds.length ≤ maxDigits then some (ofDigits ds) else none

/-- White space around a number: all but the ASCII separators. -/
def isNumberBlank (c : Char) : Bool := isBlank c && !(0x1C ≤ c.toNat && c.toNat ≤ 0x1F)

def integer? (s : String) : Option Int :=
  match dropEnds isNumberBlank s.toList with
  | '+' :: cs => (natural? cs).map Int.ofNat
  | '-' :: cs => (natural? cs).map fun n => -(Int.ofNat n)
  | cs => (natural? cs).map Int.ofNat

theorem integer?_underscore : integer? " -1_0 " = some (-10) ∧ integer? "1__0" = none ∧
    integer? "_1" = none ∧ integer? "1_" = none := by decide +kernel

end TapeMachine.Text
