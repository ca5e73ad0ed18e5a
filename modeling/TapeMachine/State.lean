import TapeMachine.Rule
import TapeMachine.Table
import TapeMachine.Text.Quoted

/-!
# States

A state has a name and a transition for each of its triggers, in the order of its rules.

## Main statements

* `State.lookup_of_find?` — a trigger of its own goes before the wildcard
* `State.of_lookup`, `State.lookup_eq_none` — what is looked up, and when nothing is
* `State.rules_add?` — a new rule goes to the end
-/

namespace TapeMachine

/-- A named state with its transitions, in the order of its rules. -/
structure State where
  name : String
  rules : Table Symbol Transition
  deriving DecidableEq

namespace State

instance : Inhabited State := ⟨⟨"", Table.empty⟩⟩

/-- A state without rules. -/
def new (name : String) : State := ⟨name, Table.empty⟩

/-- The state with one more rule, unless it has one for the trigger. -/
def add? (s : State) (trigger : Symbol) (t : Transition) : Option State :=
  if h : s.rules.find? trigger = none then some { s with rules := s.rules.insert trigger t h }
  else none

/-- Whether the state has a rule for any symbol. -/
def hasWildcard (s : State) : Bool := s.rules.contains Symbol.wildcard

/-- The transition for a symbol: its own, else the wildcard's. -/
def lookup (s : State) (cell : Symbol) : Option Transition :=
  (s.rules.find? cell).or (s.rules.find? Symbol.wildcard)

theorem lookup_of_find? {s : State} {cell : Symbol} {t : Transition}
    (h : s.rules.find? cell = some t) : s.lookup cell = some t := by simp [lookup, h]

theorem of_lookup {s : State} {cell : Symbol} {t : Transition} (h : s.lookup cell = some t) :
    (cell, t) ∈ s.rules.entries ∨ (Symbol.wildcard, t) ∈ s.rules.entries := by
  rcases Option.or_eq_some_iff.mp h with h | ⟨-, h⟩
  · exact Or.inl (Table.find?_eq_some.mp h)
  · exact Or.inr (Table.find?_eq_some.mp h)

/-- Nothing is looked up only where the state has neither a rule for the symbol nor a wildcard. -/
theorem lookup_eq_none {s : State} {cell : Symbol} :
    s.lookup cell = none ↔ cell ∉ s.rules.keys ∧ Symbol.wildcard ∉ s.rules.keys := by
  rw [lookup, Option.or_eq_none_iff, Table.find?_eq_none, Table.find?_eq_none]

theorem rules_add? {s s' : State} {trigger : Symbol} {t : Transition}
    (h : s.add? trigger t = some s') : s'.rules.entries = s.rules.entries ++ [(trigger, t)] := by
  unfold add? at h
  split at h
  · cases h; rfl
  · simp at h

/-! ## Rules -/

def ruleList (s : State) : List Rule := s.rules.entries.map fun e => ⟨s.name, e.1, e.2⟩

/-- The state without the places of its rules in a program. -/
def outline (s : State) : String × List (Symbol × String × Symbol × Move) :=
  (s.name, s.rules.entries.map fun e => (e.1, e.2.action))

theorem mem_ruleList {s : State} {r : Rule} :
    r ∈ s.ruleList ↔ r.state = s.name ∧ (r.trigger, r.transition) ∈ s.rules.entries := by
  unfold ruleList
  rw [List.mem_map]
  constructor
  · rintro ⟨e, he, rfl⟩
    exact ⟨rfl, he⟩
  · rintro ⟨hn, he⟩
    exact ⟨_, he, by rw [← hn]⟩

theorem triggers_ruleList (s : State) : s.ruleList.map Rule.trigger = s.rules.keys := by
  rw [ruleList, List.map_map]
  rfl

/-! ## Texts -/

/-- The rule for a trigger, as a program has it. -/
def ruleText (s : State) (trigger : Symbol) (t : Transition) : String :=
  Rule.text ⟨s.name, trigger, t⟩

/-- The rules of the state, as a program has them. -/
def source (s : State) : String :=
  String.join (s.rules.entries.map fun e => s.ruleText e.1 e.2 ++ "\n")

theorem source_eq (s : State) :
    s.source = String.join (s.ruleList.map fun r => r.text ++ "\n") := by
  rw [source, ruleList, List.map_map]
  rfl

/-- The state with its triggers, for a message. -/
def display (s : State) : String :=
  "State(" ++ Text.quote s.name ++ ", triggers=[" ++
    String.intercalate ", " (s.rules.keys.map Text.quote) ++ "])"

end State

end TapeMachine
