/-!
# Rules

A program is a list of rules. A rule belongs to a state, is set off by the symbol under the head and
says which state comes next, what is written and where the head goes.

## Main statements

* `Move.ofToken?_token` — a movement reads back from its token
* `Move.token_of_ofToken?` — only the token of a movement is read as it
-/

namespace TapeMachine

/-! ## Symbols -/

/-- What stands in a cell of the tape, in an alphabet, or in a rule as trigger or as write. A
program's own symbols are single characters; a cell may be given any text. -/
abbrev Symbol := String

namespace Symbol

def blank : Symbol := "_"

/-- As a trigger: any symbol without a rule of its own. As a write: leave the cell as it is. -/
def wildcard : Symbol := "*"

end Symbol

/-- The symbols of a text, one for each character. -/
def symbolsOf (s : String) : List Symbol := s.toList.map String.singleton

theorem length_symbolsOf (s : String) : (symbolsOf s).length = s.length := by
  rw [symbolsOf, List.length_map, String.length_toList]

theorem length_of_mem_symbolsOf {s : String} {x : Symbol} (h : x ∈ symbolsOf s) : x.length = 1 := by
  obtain ⟨c, -, rfl⟩ := List.mem_map.mp h
  rw [← String.length_toList, String.toList_singleton]
  rfl

/-- A symbol of one character is all that its text gives. -/
theorem symbolsOf_of_length {x : Symbol} (h : x.length = 1) : symbolsOf x = [x] := by
  rw [← String.length_toList, List.length_eq_one_iff] at h
  obtain ⟨c, hc⟩ := h
  have hx : x = String.singleton c := by rw [← String.toList_inj, hc, String.toList_singleton]
  rw [symbolsOf, hc, List.map_singleton, hx]

/-- Symbols of one character each are told apart in the text that they make together. -/
theorem symbolsOf_join : ∀ {xs : List Symbol}, (∀ x ∈ xs, x.length = 1) →
    symbolsOf (String.join xs) = xs
  | [], _ => rfl
  | x :: xs, h => by
    have ih := symbolsOf_join fun y hy => h y (List.mem_cons_of_mem _ hy)
    have hx := symbolsOf_of_length (h x List.mem_cons_self)
    unfold symbolsOf at ih hx ⊢
    rw [String.join_cons, String.toList_append, List.map_append, ih, hx, List.singleton_append]

/-! ## Movements -/

/-- Where the head goes after a write. -/
inductive Move where
  | left
  | right
  | stay
  deriving DecidableEq, Repr, Inhabited

namespace Move

/-- All movements, in the order in which a message lists them. -/
def all : List Move := [left, right, stay]

/-- The letter for a movement in a program. -/
def token : Move → String
  | left => "l"
  | right => "r"
  | stay => "s"

def ofToken? (t : String) : Option Move := all.find? fun m => m.token = t

/-- What the movement adds to the head's position. -/
def delta : Move → Int
  | left => -1
  | right => 1
  | stay => 0

def opposite : Move → Move
  | left => right
  | right => left
  | stay => stay

theorem ofToken?_token (m : Move) : ofToken? m.token = some m := by cases m <;> decide

theorem token_of_ofToken? {t : String} {m : Move} (h : ofToken? t = some m) : m.token = t := by
  have := List.find?_some h
  simpa using this

theorem delta_opposite (m : Move) : m.opposite.delta = -m.delta := by cases m <;> rfl

end Move

/-! ## Transitions -/

/-- What a rule does: the right-hand side, and the line of the program it stands on. Whoever reads
the program counts its lines. -/
structure Transition where
  next : String
  write : Symbol
  move : Move
  line : Int
  deriving DecidableEq, Repr, Inhabited

namespace Transition

/-- Whether the transition changes the cell; the wildcard leaves it as it is. -/
def writes (t : Transition) : Bool := t.write ≠ Symbol.wildcard

/-- The right-hand side of the rule, as a program has it. -/
def text (t : Transition) : String := t.next ++ ", " ++ t.write ++ ", " ++ t.move.token

/-- The transition without its place in a program. -/
def action (t : Transition) : String × Symbol × Move := (t.next, t.write, t.move)

end Transition

/-! ## Whole rules -/

/-- One line of a program. -/
structure Rule where
  state : String
  trigger : Symbol
  transition : Transition
  deriving DecidableEq, Repr

def Rule.text (r : Rule) : String :=
  r.state ++ ", " ++ r.trigger ++ " -> " ++ r.transition.text

end TapeMachine
