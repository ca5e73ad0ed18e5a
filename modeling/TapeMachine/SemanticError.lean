import TapeMachine.Json.Basic
import TapeMachine.Rule

/-!
# Errors of meaning

A program may be well formed and still describe no machine: a letter is not in the alphabet, a state
is missing, or a state does not say what to do with a letter.

## Main statements

* `SemanticError.message_noStart` — an error without a line
-/

namespace TapeMachine

/-- Why an alphabet or a program describes no machine. -/
inductive SemanticFault where
  /-- A letter is not a text of one character. -/
  | badLetter (item : Json)
  /-- The wildcard is given as a letter. -/
  | wildcardLetter
  /-- A halting state has rules. -/
  | reserved (state : String)
  | unknownTrigger (state : String) (letter : Symbol)
  | unknownWrite (state : String) (letter : Symbol)
  | noStart
  | missingLetter (state : String) (letter : Symbol)
  | missingState (state : String)
  deriving Repr

namespace SemanticFault

def detail : SemanticFault → String
  | badLetter item => "Alphabet letters must be single characters, got " ++ item.display
  | wildcardLetter =>
    "'" ++ Symbol.wildcard ++ "' is the wildcard and cannot be part of the alphabet"
  | reserved state => s!"State {state} is a reserved halting state and cannot have transitions"
  | unknownTrigger state letter =>
    s!"State {state} has a transition for letter {letter} which is not in the alphabet"
  | unknownWrite state letter => s!"State {state} writes {letter} which is not in the alphabet"
  | noStart => "VM does not contain a start state"
  | missingLetter state letter => s!"State {state} does not have a transition for letter {letter}"
  | missingState state => s!"State {state} does not exist"

end SemanticFault

/-- An error of meaning, with the line at fault if there is one. -/
structure SemanticError where
  line : Option Int
  fault : SemanticFault
  deriving Repr

namespace SemanticError

/-- How an error of meaning is reported. -/
def report (line : Option String) (detail : String) : String :=
  match line with
  | none => s!"SEMANTIC ERROR - {detail}"
  | some n => s!"SEMANTIC ERROR @ Ln {n} - {detail}"

def message (e : SemanticError) : String := report (e.line.map Int.repr) e.fault.detail

theorem message_noStart :
    message ⟨none, .noStart⟩ = "SEMANTIC ERROR - VM does not contain a start state" := rfl

end SemanticError

end TapeMachine
