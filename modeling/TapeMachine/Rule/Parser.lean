import TapeMachine.Rule
import TapeMachine.Text.Blank

/-!
# Reading rules

A rule reads `state, trigger -> next, write, move`. Each field may have white space around it; the
trigger and the write are single characters, the names of the states are not empty, and the arrow
stands once in the rule.

## Termination

* `cutArrow?` — one character goes at each call

## Main statements

* `cutArrow?_eq_some` — cutting at the first arrow loses nothing but the arrow
* `Rule.line_of_read` — a rule remembers the line it was read from
-/

namespace TapeMachine

/-! ## Errors -/

/-- What is wrong with a line of a program. -/
inductive RuleFault where
  /-- There is not one arrow, or not two fields before it. -/
  | notARule (text : String)
  | emptyState (text : String)
  | longTrigger (text : String)
  /-- There are not three fields after the arrow. -/
  | notATransition (text : String)
  | emptyNext (text : String)
  | longWrite (text : String)
  | unknownMove (text : String)
  /-- The state has a rule for the trigger already. -/
  | duplicate (trigger : Symbol) (state : String) (first : Int)
  deriving DecidableEq, Repr

namespace RuleFault

/-- The fields of a rule, as messages name them. -/
def ruleFormat : String := "<state>, <character> -> <next state>, <write>, <movement>"

/-- The fields of a right-hand side, as messages name them. -/
def transitionFormat : String := "<next state>, <write>, <movement>"

/-- The movement tokens, as a message lists them. -/
def moveList : String := String.intercalate ", " (Move.all.map fun m => "'" ++ m.token ++ "'")

def detail : RuleFault → String
  | notARule text => s!"Invalid state format: {text}. Expected format {ruleFormat}"
  | emptyState text => s!"Invalid state format: {text}. State name must not be empty"
  | longTrigger text => s!"Invalid state format: {text}. Trigger must be a single character"
  | notATransition text => s!"Invalid transition format: {text}. Expected format {transitionFormat}"
  | emptyNext text => s!"Invalid transition format: {text}. Next state must not be empty"
  | longWrite text => s!"Invalid transition format: {text}. Write must be a single character"
  | unknownMove text => s!"Invalid transition format: {text}. Movement must be one of: {moveList}"
  | duplicate trigger state first =>
    s!"Duplicate trigger '{trigger}' for state {state} (first defined on line {first})"

end RuleFault

/-- A program that cannot be read, and the line at fault. -/
structure ParseError where
  line : Int
  fault : RuleFault
  deriving DecidableEq, Repr

namespace ParseError

/-- How an error in the form of a program is reported. -/
def report (line detail : String) : String := s!"PARSING ERROR @ Ln {line} - {detail}"

def message (e : ParseError) : String := report (Int.repr e.line) e.fault.detail

end ParseError

/-! ## Fields -/

/-- The parts of a text between commas, each without white space around it. -/
def fields (cs : List Char) : List String :=
  (cs.splitOn ',').map fun part => String.ofList (Text.strip part)

/-- Cuts a text at its first arrow. -/
def cutArrow? : List Char → Option (List Char × List Char)
  | [] => none
  | '-' :: '>' :: rest => some ([], rest)
  | c :: rest => (cutArrow? rest).map fun sides => (c :: sides.1, sides.2)

theorem cutArrow?_eq_some {cs left right : List Char} (h : cutArrow? cs = some (left, right)) :
    cs = left ++ '-' :: '>' :: right := by
  fun_induction cutArrow? cs generalizing left with
  | case1 => simp at h
  | case2 rest => simp at h; simp [← h.1, h.2]
  | case3 c rest _ ih =>
    obtain ⟨⟨l, r⟩, hc, he⟩ := Option.map_eq_some_iff.mp h
    cases he
    simp [ih hc]

/-- The two sides of the only arrow of a text. -/
def sides? (cs : List Char) : Option (List Char × List Char) :=
  match cutArrow? cs with
  | some (left, right) => if (cutArrow? right).isNone then some (left, right) else none
  | none => none

/-! ## Reading -/

namespace Transition

def read (text : String) (line : Int) : Except RuleFault Transition :=
  match fields text.toList with
  | [next, write, move] =>
    if next = "" then .error (.emptyNext text)
    else if write.length ≠ 1 then .error (.longWrite text)
    else match Move.ofToken? move with
      | none => .error (.unknownMove text)
      | some m => .ok { next, write, move := m, line }
  | _ => .error (.notATransition text)

end Transition

namespace Rule

def read (text : String) (line : Int) : Except RuleFault Rule :=
  let shown := Text.trimmed text
  match sides? text.toList with
  | none => .error (.notARule shown)
  | some (left, right) =>
    match fields (Text.strip left) with
    | [state, trigger] =>
      if state = "" then .error (.emptyState shown)
      else if trigger.length ≠ 1 then .error (.longTrigger shown)
      else (Transition.read (String.ofList (Text.strip right)) line).map fun transition =>
        { state, trigger, transition }
    | _ => .error (.notARule shown)

end Rule

theorem Transition.line_of_read {text : String} {line : Int} {t : Transition}
    (h : Transition.read text line = .ok t) : t.line = line := by
  unfold Transition.read at h
  repeat' split at h
  all_goals simp only [Except.ok.injEq, reduceCtorEq] at h
  exact h ▸ rfl

theorem Rule.line_of_read {text : String} {line : Int} {r : Rule}
    (h : Rule.read text line = .ok r) : r.transition.line = line := by
  unfold Rule.read at h
  simp only at h
  repeat' split at h
  all_goals try simp only [reduceCtorEq] at h
  generalize ht : Transition.read _ line = t at h
  cases t with
  | error e => simp [Except.map] at h
  | ok t =>
    simp only [Except.map, Except.ok.injEq] at h
    exact h ▸ Transition.line_of_read ht

end TapeMachine
