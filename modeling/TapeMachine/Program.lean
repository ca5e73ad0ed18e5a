import TapeMachine.Rule.Parser
import TapeMachine.State
import TapeMachine.Text.Newline

/-!
# Programs

A program is read line by line. Its states stand in the order in which they are first mentioned on
the left of a rule, and each has at least one rule.

## Main statements

* `Program.names_add` — a rule of a new state appends the state, any other leaves the names alone
* `mem_rules_addRule` — the rules afterwards are those before and the new one
* `Program.find?_eq_some` — a state is found by its name
* `Program.mem_rules_iff` — a rule is found under its name and its trigger
-/

namespace TapeMachine

/-! ## Adding a rule to a list of states -/

/-- The states with one more rule; the line of the earlier rule if the state has one for the
trigger. -/
def addRule (r : Rule) : List State → Except Int (List State)
  | [] => .ok [⟨r.state, Table.empty.insert r.trigger r.transition rfl⟩]
  | s :: rest =>
    if s.name = r.state then
      match h : s.rules.find? r.trigger with
      | some first => .error first.line
      | none => .ok ({ s with rules := s.rules.insert r.trigger r.transition h } :: rest)
    else (addRule r rest).map (s :: ·)

theorem names_addRule {r : Rule} : ∀ {states states' : List State},
    addRule r states = .ok states' → states'.map State.name =
      if r.state ∈ states.map State.name then states.map State.name
      else states.map State.name ++ [r.state]
  | [], _, h => by
    simp only [addRule, Except.ok.injEq] at h
    simp [← h]
  | s :: rest, states', h => by
    unfold addRule at h
    by_cases hs : s.name = r.state
    · rw [if_pos hs] at h
      split at h
      · simp at h
      · simp only [Except.ok.injEq] at h
        simp [← h, hs]
    · rw [if_neg hs] at h
      cases hr : addRule r rest with
      | error e => simp [hr, Except.map] at h
      | ok rest' =>
        simp only [hr, Except.map, Except.ok.injEq] at h
        have ih := names_addRule hr
        subst h
        simp only [List.map_cons, ih, List.mem_cons, Ne.symm hs, false_or]
        split <;> simp

theorem rules_ne_nil_addRule {r : Rule} : ∀ {states states' : List State},
    addRule r states = .ok states' → (∀ s ∈ states, s.rules.entries ≠ []) →
      ∀ s ∈ states', s.rules.entries ≠ []
  | [], _, h, _ => by
    simp only [addRule, Except.ok.injEq] at h
    simp [← h, Table.empty]
  | s :: rest, states', h, hne => by
    have hs := hne s List.mem_cons_self
    have hrest : ∀ x ∈ rest, x.rules.entries ≠ [] := fun x hx => hne x (List.mem_cons_of_mem _ hx)
    unfold addRule at h
    by_cases hn : s.name = r.state
    · rw [if_pos hn] at h
      split at h
      · simp at h
      · simp only [Except.ok.injEq] at h
        subst h
        intro x hx
        rcases List.mem_cons.mp hx with rfl | hx
        · simp
        · exact hrest x hx
    · rw [if_neg hn] at h
      cases hr : addRule r rest with
      | error e => simp [hr, Except.map] at h
      | ok rest' =>
        simp only [hr, Except.map, Except.ok.injEq] at h
        subst h
        intro x hx
        rcases List.mem_cons.mp hx with rfl | hx
        · exact hs
        · exact rules_ne_nil_addRule hr hrest x hx

theorem mem_rules_addRule {r x : Rule} : ∀ {states states' : List State},
    addRule r states = .ok states' →
      (x ∈ states'.flatMap State.ruleList ↔ x ∈ states.flatMap State.ruleList ∨ x = r)
  | [], states', h => by
    cases h
    simp [State.ruleList, Table.empty]
  | s :: rest, states', h => by
    unfold addRule at h
    by_cases hs : s.name = r.state
    · rw [if_pos hs] at h
      split at h
      · cases h
      · cases h
        simp only [List.flatMap_cons, List.mem_append, State.ruleList, Table.entries_insert,
          List.map_append, List.map_cons, List.map_nil, List.mem_singleton, hs]
        rw [or_right_comm]
    · rw [if_neg hs] at h
      cases hr : addRule r rest with
      | error e => simp [hr, Except.map] at h
      | ok rest' =>
        rw [hr] at h
        cases h
        rw [List.flatMap_cons, List.flatMap_cons, List.mem_append, List.mem_append,
          mem_rules_addRule hr, or_assoc]

/-- A rule passes the states of other names. -/
theorem addRule_append {r : Rule} : ∀ {before : List State} (after : List State),
    r.state ∉ before.map State.name →
      addRule r (before ++ after) = (addRule r after).map (before ++ ·)
  | [], after, _ => by cases h : addRule r after <;> simp [h, Except.map]
  | s :: before, after, hn => by
    rw [List.map_cons, List.mem_cons, not_or] at hn
    rw [List.cons_append, addRule, if_neg (Ne.symm hn.1), addRule_append after hn.2]
    cases addRule r after <;> rfl

/-- A rule with a new trigger goes to the end of its state. -/
theorem addRule_cons_self {r : Rule} {s : State} (after : List State) (hn : s.name = r.state)
    (h : s.rules.find? r.trigger = none) : addRule r (s :: after) =
      .ok ({ s with rules := s.rules.insert r.trigger r.transition h } :: after) := by
  rw [addRule, if_pos hn]
  split
  · next first hf =>
    rw [h] at hf
    cases hf
  · rfl

/-! ## Programs -/

/-- The states of a program in order of first mention: no name twice, no state without a rule. -/
structure Program where
  states : List State
  nodup : (states.map State.name).Nodup
  rules_ne_nil : ∀ s ∈ states, s.rules.entries ≠ []

namespace Program

def empty : Program := ⟨[], List.nodup_nil, by simp⟩

instance : Inhabited Program := ⟨empty⟩

/-- The names of the states, in order of first mention. -/
def names (p : Program) : List String := p.states.map State.name

/-- The state of a name. -/
def find? (p : Program) (name : String) : Option State := p.states.find? fun s => s.name = name

/-- Whether there is a state of a name. -/
def has (p : Program) (name : String) : Bool := p.states.any fun s => s.name = name

theorem has_iff {p : Program} {name : String} : p.has name = true ↔ name ∈ p.names := by
  simp [has, names]

/-- The rules of all states, state by state. -/
def rules (p : Program) : List Rule := p.states.flatMap State.ruleList

def ruleCount (p : Program) : Nat := (p.states.flatMap fun s => s.rules.entries).length

/-- Two programs with the same states in the same order are equal. -/
theorem ext_states {p q : Program} (h : p.states = q.states) : p = q := by
  cases p; cases q; cases h; rfl

theorem find?_eq_some {p : Program} {name : String} {s : State} :
    p.find? name = some s ↔ s ∈ p.states ∧ s.name = name := by
  constructor
  · intro h
    exact ⟨List.mem_of_find?_eq_some h, by simpa using List.find?_some h⟩
  · rintro ⟨hs, rfl⟩
    obtain ⟨before, after, he⟩ := List.append_of_mem hs
    refine List.find?_eq_some_iff_append.mpr ⟨by simp, before, after, he, ?_⟩
    intro x hx
    have hn := p.nodup
    rw [he, List.map_append, List.nodup_append] at hn
    simpa using hn.2.2 x.name (List.mem_map_of_mem hx) s.name (by simp)

/-- There is no state of a name exactly if it is not among the names. -/
theorem find?_eq_none {p : Program} {name : String} : p.find? name = none ↔ name ∉ p.names := by
  simp [find?, names]

/-- A rule of a program is what is found under its name and its trigger. -/
theorem mem_rules_iff {p : Program} {r : Rule} : r ∈ p.rules ↔
    ∃ s, p.find? r.state = some s ∧ s.rules.find? r.trigger = some r.transition := by
  rw [rules, List.mem_flatMap]
  constructor
  · rintro ⟨s, hs, hr⟩
    obtain ⟨hn, he⟩ := State.mem_ruleList.mp hr
    exact ⟨s, find?_eq_some.mpr ⟨hs, hn.symm⟩, Table.find?_eq_some.mpr he⟩
  · rintro ⟨s, hs, hf⟩
    obtain ⟨hmem, hn⟩ := find?_eq_some.mp hs
    exact ⟨s, hmem, State.mem_ruleList.mpr ⟨hn.symm, Table.find?_eq_some.mp hf⟩⟩

/-- The program with one more rule; the line of the earlier rule if the state has one for the
trigger. -/
def add (p : Program) (r : Rule) : Except Int Program :=
  match h : addRule r p.states with
  | .error first => .error first
  | .ok states => .ok {
      states
      nodup := by
        rw [names_addRule h]
        split
        · exact p.nodup
        · next hn => exact nodup_append_singleton p.nodup hn
      rules_ne_nil := rules_ne_nil_addRule h p.rules_ne_nil }

theorem add_eq_ok {p q : Program} {r : Rule} :
    p.add r = .ok q ↔ addRule r p.states = .ok q.states := by
  unfold add
  constructor
  · intro h
    split at h
    · cases h
    · next states hs =>
      cases h
      exact hs
  · intro h
    split
    · next first hs =>
      rw [hs] at h
      cases h
    · next states hs =>
      rw [hs, Except.ok.injEq] at h
      rw [Except.ok.injEq]
      exact ext_states h

/-- A rule that can be added to the states can be added to the program. -/
theorem exists_add {p : Program} {r : Rule} {states : List State}
    (h : addRule r p.states = .ok states) : ∃ q, p.add r = .ok q ∧ q.states = states := by
  cases hq : p.add r with
  | error first =>
    unfold add at hq
    split at hq
    · next hs =>
      rw [h] at hs
      cases hs
    · cases hq
  | ok q =>
    rw [add_eq_ok, h, Except.ok.injEq] at hq
    exact ⟨q, rfl, hq.symm⟩

/-- A rule of a new state appends the state, any other leaves the names alone. -/
theorem names_add {p q : Program} {r : Rule} (h : p.add r = .ok q) :
    q.names = if r.state ∈ p.names then p.names else p.names ++ [r.state] :=
  names_addRule (add_eq_ok.mp h)

/-! ## Reading -/

/-- Reads a rule and adds it; the program and the rule's state, or the error on that line. -/
def readRule (p : Program) (text : String) (line : Int) : Except ParseError (Program × String) :=
  match Rule.read text line with
  | .error fault => .error ⟨line, fault⟩
  | .ok r =>
    match p.add r with
    | .error first => .error ⟨line, .duplicate r.trigger r.state first⟩
    | .ok q => .ok (q, r.state)

/-- Reads a line: one without a rule changes nothing. -/
def readLine (p : Program) (text : String) (line : Int) : Except ParseError Program :=
  if Text.strip text.toList = [] then .ok p else (p.readRule text line).map Prod.fst

/-- A line that is read has no rule on it or adds one. -/
theorem readLine_eq_ok {p q : Program} {text : String} {line : Int} :
    p.readLine text line = .ok q ↔ Text.strip text.toList = [] ∧ q = p ∨
      Text.strip text.toList ≠ [] ∧ ∃ r, Rule.read text line = .ok r ∧ p.add r = .ok q := by
  unfold readLine readRule
  by_cases hs : Text.strip text.toList = []
  · simp [hs, eq_comm]
  · cases hr : Rule.read text line with
    | error fault => simp [hs, Except.map]
    | ok r => cases ha : p.add r <;> simp [hs, ha, Except.map]

/-- Reads numbered lines one after the other, up to the first error. -/
def readLines (p : Program) : List (String × Int) → Except ParseError Program
  | [] => .ok p
  | (text, line) :: rest =>
    match p.readLine text line with
    | .error e => .error e
    | .ok q => q.readLines rest

/-- Lines with their numbers, counted from a first one. -/
def number (first : Int) : List String → List (String × Int)
  | [] => []
  | text :: rest => (text, first) :: number (first + 1) rest

/-- Reads a whole program. Lines are counted from one. -/
def read (source : String) : Except ParseError Program :=
  empty.readLines (number 1 (Text.lines source))

/-- The rules of all states, as a program has them. -/
def source (p : Program) : String := String.join (p.states.map State.source)

end Program

end TapeMachine
