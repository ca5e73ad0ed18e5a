import TapeMachine.Proofs.Culprits

/-!
# Rules read in place

A reader that is given rules one after the other keeps its states in a table, which it changes in
place. The state of a rule is put there before it is known whether the rule can be added to it, so a
rule that is refused could leave a state without rules behind. It never does: a state that was just put
there has no rule that could be in the way. Hence a call changes nothing or adds one transition, and
after any calls the table has for a state and a trigger what the first call with these two has read.

## Main statements

* `StateTable.readRule_cases` — what a call can do
* `StateTable.transition?_after` — what is in the table after calls
* `Program.readRule_table` — reading in place is reading into a program
* `StateTable.readRule_atomic` — what a call does after any calls
-/

namespace TapeMachine

/-- States under their names, in the order of first mention. -/
abbrev StateTable := Table String State

/-- A text that a reader is given as a rule, and the line that it is said to stand on. -/
structure RuleCall where
  text : String
  line : Int

namespace StateTable

variable {m m' : StateTable} {r : Rule}

def empty : StateTable := Table.empty

/-- The state of a name, and the table with it: a new state is put at the end, without rules. -/
def enter (m : StateTable) (name : String) : State × StateTable :=
  match m.find? name with
  | some s => (s, m)
  | none => (State.new name, m.set name (State.new name))

/-- Adds a rule to its state, which is in the table from then on; the line of the earlier rule if the
state has one for the trigger. -/
def addRule (m : StateTable) (r : Rule) : Except Int Unit × StateTable :=
  let (s, m) := m.enter r.state
  match s.rules.find? r.trigger with
  | some first => (.error first.line, m)
  | none => (.ok (), m.set r.state { s with rules := s.rules.set r.trigger r.transition })

/-- Reads a rule and adds it; the rule's state, or the error on that line. -/
def readRule (m : StateTable) (call : RuleCall) : Except ParseError String × StateTable :=
  match Rule.read call.text call.line with
  | .error fault => (.error ⟨call.line, fault⟩, m)
  | .ok r =>
    match m.addRule r with
    | (.error first, m) => (.error ⟨call.line, .duplicate r.trigger r.state first⟩, m)
    | (.ok (), m) => (.ok r.state, m)

/-- The table after calls, those that were refused among them. -/
def after (m : StateTable) : List RuleCall → StateTable
  | [] => m
  | call :: rest => (m.readRule call).2.after rest

/-- The transition of a state for a trigger. -/
def transition? (m : StateTable) (name : String) (trigger : Symbol) : Option Transition :=
  (m.find? name).bind fun s => s.rules.find? trigger

/-! ## One rule -/

/-- The state of a name, without rules if it is new. -/
def stateOf (m : StateTable) (name : String) : State := (m.find? name).getD (State.new name)

/-- The table with a rule at the end of its state. -/
def withRule (m : StateTable) (r : Rule) : StateTable :=
  m.set r.state
    { m.stateOf r.state with rules := (m.stateOf r.state).rules.set r.trigger r.transition }

theorem find?_stateOf (m : StateTable) (name : String) (trigger : Symbol) :
    (m.stateOf name).rules.find? trigger = m.transition? name trigger := by
  unfold stateOf transition?
  cases m.find? name <;> rfl

/-- A rule is refused and changes nothing, or it goes to the end of its state. A state that is new has
nothing to refuse a rule for. -/
theorem addRule_cases (m : StateTable) (r : Rule) :
    (∃ first, m.transition? r.state r.trigger = some first ∧ m.addRule r = (.error first.line, m)) ∨
    m.transition? r.state r.trigger = none ∧ m.addRule r = (.ok (), m.withRule r) := by
  have hfind := find?_stateOf m r.state r.trigger
  unfold addRule enter withRule
  cases hs : m.find? r.state with
  | none =>
    have hstate : m.stateOf r.state = State.new r.state := by rw [stateOf, hs]; rfl
    have hfree : (State.new r.state).rules.find? r.trigger = none := rfl
    rw [hstate, hfree] at hfind
    simp only [hstate, hfree, Table.set_set]
    exact Or.inr ⟨hfind.symm, trivial⟩
  | some s =>
    have hstate : m.stateOf r.state = s := by rw [stateOf, hs]; rfl
    rw [hstate] at hfind
    simp only [hstate]
    cases ht : s.rules.find? r.trigger with
    | some first => exact Or.inl ⟨first, by rw [← hfind, ht], rfl⟩
    | none => exact Or.inr ⟨by rw [← hfind, ht], rfl⟩

theorem transition?_withRule (m : StateTable) (r : Rule) (name : String) (trigger : Symbol) :
    (m.withRule r).transition? name trigger =
      if r.state = name ∧ r.trigger = trigger then some r.transition
      else m.transition? name trigger := by
  unfold transition? withRule
  rw [Table.find?_set]
  by_cases hn : r.state = name
  · subst hn
    rw [if_pos rfl, Option.bind_some, Table.find?_set, find?_stateOf]
    simp only [true_and]
    rfl
  · rw [if_neg hn, if_neg (fun h => hn h.1)]

/-- One more transition, at the end of the triggers of its state. The state stands where it stood, or
at the end of the table if it is new, and all else is as it was. -/
inductive Adds (m m' : StateTable) (r : Rule) : Prop where
  | new (hnew : r.state ∉ m.keys) (s : State)
      (hafter : m'.entries = m.entries ++ [(r.state, s)])
      (hname : s.name = r.state) (hrules : s.rules.entries = [(r.trigger, r.transition)])
  | known (before after : List (String × State)) (s s' : State)
      (hbefore : m.entries = before ++ (r.state, s) :: after)
      (hafter : m'.entries = before ++ (r.state, s') :: after)
      (hname : s'.name = s.name)
      (hrules : s'.rules.entries = s.rules.entries ++ [(r.trigger, r.transition)])

theorem adds_withRule (h : m.transition? r.state r.trigger = none) : Adds m (m.withRule r) r := by
  have hfree := find?_stateOf m r.state r.trigger
  rw [h] at hfree
  have hrules := Table.entries_set_of_new r.transition hfree
  unfold withRule
  cases hs : m.find? r.state with
  | none =>
    have hstate : m.stateOf r.state = State.new r.state := by rw [stateOf, hs]; rfl
    rw [hstate] at hrules ⊢
    exact .new (Table.find?_eq_none.mp hs) _ (Table.entries_set_of_new _ hs) rfl hrules
  | some s =>
    have hstate : m.stateOf r.state = s := by rw [stateOf, hs]; rfl
    rw [hstate] at hrules ⊢
    obtain ⟨before, after, hbefore, hafter⟩ := Table.entries_set_of_known
      { s with rules := s.rules.set r.trigger r.transition } hs
    exact .known before after s _ hbefore hafter rfl hrules

/-! ## One call -/

/-- A call is refused, for the form of its text or for an earlier rule, and changes nothing, or its
rule is added. -/
theorem readRule_cases (m : StateTable) (call : RuleCall) :
    (∃ fault, Rule.read call.text call.line = .error fault ∧
      m.readRule call = (.error ⟨call.line, fault⟩, m)) ∨
    ∃ r, Rule.read call.text call.line = .ok r ∧
      ((∃ first, m.transition? r.state r.trigger = some first ∧
        m.readRule call = (.error ⟨call.line, .duplicate r.trigger r.state first.line⟩, m)) ∨
      m.transition? r.state r.trigger = none ∧ m.readRule call = (.ok r.state, m.withRule r)) := by
  unfold readRule
  cases hr : Rule.read call.text call.line with
  | error fault => exact Or.inl ⟨fault, rfl, rfl⟩
  | ok r =>
    refine Or.inr ⟨r, rfl, ?_⟩
    rcases m.addRule_cases r with ⟨first, hfirst, hadd⟩ | ⟨hfree, hadd⟩
    · exact Or.inl ⟨first, hfirst, by simp only [hadd]⟩
    · exact Or.inr ⟨hfree, by simp only [hadd]⟩

/-- Every state has the name that it is found under, and a transition. -/
def Sound (m : StateTable) : Prop := ∀ e ∈ m.entries, e.2.name = e.1 ∧ e.2.rules.entries ≠ []

theorem sound_empty : empty.Sound := nofun

theorem Sound.adds (h : m.Sound) (ha : Adds m m' r) : m'.Sound := by
  intro e he
  rcases ha with ⟨-, s, hafter, hname, hrules⟩ | ⟨before, after, s, s', hbefore, hafter, hname, hrules⟩
  · rw [hafter, List.mem_append, List.mem_singleton] at he
    rcases he with he | rfl
    · exact h e he
    · exact ⟨hname, by simp [hrules]⟩
  · have hs := h (r.state, s) (by simp [hbefore])
    rw [hafter, List.mem_append, List.mem_cons] at he
    rcases he with he | rfl | he
    · exact h e (by simp [hbefore, he])
    · exact ⟨hname.trans hs.1, by simp [hrules]⟩
    · exact h e (by simp [hbefore, he])

theorem Sound.readRule (h : m.Sound) (call : RuleCall) : (m.readRule call).2.Sound := by
  rcases m.readRule_cases call with ⟨fault, -, hcall⟩ | ⟨r, -, ⟨first, -, hcall⟩ | ⟨hfree, hcall⟩⟩
  · rwa [hcall]
  · rwa [hcall]
  · rw [hcall]
    exact h.adds (adds_withRule hfree)

end StateTable

namespace RuleCall

/-- The transition that a call reads for a state and a trigger. -/
def defines? (call : RuleCall) (name : String) (trigger : Symbol) : Option Transition :=
  match Rule.read call.text call.line with
  | .ok r => if r.state = name ∧ r.trigger = trigger then some r.transition else none
  | .error _ => none

theorem defines?_eq_some {call : RuleCall} {name : String} {trigger : Symbol} {t : Transition} :
    call.defines? name trigger = some t ↔
      Rule.read call.text call.line = .ok ⟨name, trigger, t⟩ := by
  unfold defines?
  cases hr : Rule.read call.text call.line with
  | error fault => simp
  | ok r =>
    obtain ⟨state, trigger', t'⟩ := r
    simp only [Option.ite_none_right_eq_some, Option.some.injEq, Except.ok.injEq, Rule.mk.injEq,
      and_assoc]

end RuleCall

namespace StateTable

variable {m : StateTable} {calls : List RuleCall}

/-- After a call the table has what it had, or else what the call reads. -/
theorem transition?_readRule (m : StateTable) (call : RuleCall) (name : String)
    (trigger : Symbol) : (m.readRule call).2.transition? name trigger =
      (m.transition? name trigger).or (call.defines? name trigger) := by
  unfold RuleCall.defines?
  rcases m.readRule_cases call with
    ⟨fault, hr, hcall⟩ | ⟨r, hr, ⟨first, hfirst, hcall⟩ | ⟨hfree, hcall⟩⟩
  · rw [hcall, hr, Option.or_none]
  · rw [hcall, hr]
    by_cases hkey : r.state = name ∧ r.trigger = trigger
    · rw [← hkey.1, ← hkey.2, hfirst, Option.some_or]
    · simp only [if_neg hkey, Option.or_none]
  · rw [hcall, hr, transition?_withRule]
    by_cases hkey : r.state = name ∧ r.trigger = trigger
    · rw [if_pos hkey, ← hkey.1, ← hkey.2, hfree]
      simp
    · simp only [if_neg hkey, Option.or_none]

/-! ## Calls one after the other -/

theorem Sound.after (h : m.Sound) (calls : List RuleCall) : (m.after calls).Sound := by
  induction calls generalizing m with
  | nil => exact h
  | cons call rest ih => exact ih (h.readRule call)

/-- After calls the table has what it had, or else what the first call with the state and the trigger
has read. -/
theorem transition?_after (m : StateTable) (calls : List RuleCall) (name : String)
    (trigger : Symbol) : (m.after calls).transition? name trigger =
      (m.transition? name trigger).or (calls.findSome? fun call => call.defines? name trigger) := by
  induction calls generalizing m with
  | nil => exact (Option.or_none).symm
  | cons call rest ih =>
    rw [after, ih, transition?_readRule, Option.or_assoc, List.findSome?_cons]
    cases call.defines? name trigger <;> rfl

end StateTable

/-! ## Programs as tables -/

namespace Program

/-- The states of a program under their names. -/
def table (p : Program) : StateTable where
  entries := p.states.map fun s => (s.name, s)
  nodup := by
    rw [List.map_map]
    exact p.nodup

theorem entries_table (p : Program) : p.table.entries = p.states.map fun s => (s.name, s) := rfl

theorem find?_table (p : Program) (name : String) : p.table.find? name = p.find? name := by
  refine Option.ext fun s => ?_
  rw [Table.find?_eq_some, find?_eq_some, entries_table, List.mem_map]
  constructor
  · rintro ⟨s', hs', he⟩
    cases he
    exact ⟨hs', rfl⟩
  · rintro ⟨hs, rfl⟩
    exact ⟨s, hs, rfl⟩

section

variable {p : Program} {r : Rule}

/-- A rule of a new state makes the state. -/
theorem exists_add_new (h : p.find? r.state = none) :
    ∃ q, p.add r = .ok q ∧ q.table = p.table.withRule r := by
  have hadd := addRule_append (r := r) [] (find?_eq_none.mp h)
  rw [List.append_nil] at hadd
  obtain ⟨q, hq, hstates⟩ := exists_add hadd
  have hnone : p.table.find? r.state = none := (find?_table p _).trans h
  refine ⟨q, hq, Table.ext_entries ?_⟩
  rw [StateTable.withRule, StateTable.stateOf, Table.entries_set_of_new _ hnone, hnone,
    entries_table, hstates, List.map_append]
  rfl

/-- A state stands once among the states. -/
theorem exists_append_of_find? {name : String} {s : State} (h : p.find? name = some s) :
    ∃ before after, p.states = before ++ s :: after ∧ name ∉ before.map State.name ∧
      s.name = name := by
  obtain ⟨hmem, hname⟩ := find?_eq_some.mp h
  obtain ⟨before, after, hstates⟩ := List.append_of_mem hmem
  have hnodup := p.nodup
  rw [hstates, List.map_append, List.nodup_append] at hnodup
  exact ⟨before, after, hstates,
    fun hmem => hnodup.2.2 _ hmem _ List.mem_cons_self hname.symm, hname⟩

/-- A rule whose trigger is free goes to the end of its state. -/
theorem exists_add_known {s : State} (h : p.find? r.state = some s)
    (ht : s.rules.find? r.trigger = none) :
    ∃ q, p.add r = .ok q ∧ q.table = p.table.withRule r := by
  obtain ⟨before, after, hstates, hbefore, hname⟩ := exists_append_of_find? h
  have hadd := addRule_append (r := r) (s :: after) hbefore
  rw [← hstates, addRule_cons_self after hname ht] at hadd
  obtain ⟨q, hq, hafter⟩ := exists_add hadd
  have hsome : p.table.find? r.state = some s := (find?_table p _).trans h
  have hrules : s.rules.set r.trigger r.transition = s.rules.insert r.trigger r.transition ht :=
    Table.ext_entries (Table.entries_set_of_new _ ht)
  have hkeys : r.state ∉ (before.map fun s => (s.name, s)).map Prod.fst := by
    rw [List.map_map]
    exact hbefore
  refine ⟨q, hq, Table.ext_entries ?_⟩
  rw [StateTable.withRule, StateTable.stateOf, hsome, Option.getD_some, hrules, Table.set]
  simp only [entries_table, hstates, hafter, List.map_append, List.map_cons, hname]
  rw [Table.put_append_cons _ s _ hkeys]

/-- A rule whose trigger is taken is refused. -/
theorem add_eq_error {s : State} {first : Transition} (h : p.find? r.state = some s)
    (ht : s.rules.find? r.trigger = some first) : p.add r = .error first.line := by
  obtain ⟨before, after, hstates, hbefore, hname⟩ := exists_append_of_find? h
  have hadd := addRule_append (r := r) (s :: after) hbefore
  have hrefused : TapeMachine.addRule r (s :: after) = .error first.line := by
    rw [TapeMachine.addRule, if_pos hname]
    split
    · next first' hf =>
      rw [ht] at hf
      cases hf
      rfl
    · next hf =>
      rw [ht] at hf
      cases hf
  rw [← hstates, hrefused] at hadd
  unfold add
  split
  · next e he =>
    rw [hadd] at he
    cases he
    rfl
  · next states he =>
    rw [hadd] at he
    cases he

end

/-- Adding a rule to a program is adding it to its table. -/
theorem add_cases (p : Program) (r : Rule) :
    (∃ first, p.table.transition? r.state r.trigger = some first ∧ p.add r = .error first.line) ∨
    p.table.transition? r.state r.trigger = none ∧
      ∃ q, p.add r = .ok q ∧ q.table = p.table.withRule r := by
  unfold StateTable.transition?
  rw [find?_table]
  cases hs : p.find? r.state with
  | none => exact Or.inr ⟨rfl, exists_add_new hs⟩
  | some s =>
    rw [Option.bind_some]
    cases ht : s.rules.find? r.trigger with
    | some first => exact Or.inl ⟨first, rfl, add_eq_error hs ht⟩
    | none => exact Or.inr ⟨rfl, exists_add_known hs ht⟩

/-- What comes of a call to a program, as it comes of one to its table. -/
def inPlace (p : Program) : Except ParseError (Program × String) → Except ParseError String × StateTable
  | .error e => (.error e, p.table)
  | .ok (q, name) => (.ok name, q.table)

/-- Reading a rule into a program is reading it in place. -/
theorem readRule_table (p : Program) (call : RuleCall) :
    p.table.readRule call = p.inPlace (p.readRule call.text call.line) := by
  unfold Program.readRule
  rcases p.table.readRule_cases call with
    ⟨fault, hr, hcall⟩ | ⟨r, hr, ⟨first, hfirst, hcall⟩ | ⟨hfree, hcall⟩⟩
  · rw [hcall, hr]
    rfl
  · rcases p.add_cases r with ⟨first', hfirst', hadd⟩ | ⟨hfree, -⟩
    · rw [hfirst] at hfirst'
      cases hfirst'
      simp only [hcall, hr, hadd]
      rfl
    · rw [hfirst] at hfree
      cases hfree
  · rcases p.add_cases r with ⟨first, hfirst, -⟩ | ⟨-, q, hadd, htable⟩
    · rw [hfree] at hfirst
      cases hfirst
    · simp only [hcall, hr, hadd]
      rw [inPlace, htable]

/-- The program after calls, those that were refused among them. -/
def after (p : Program) : List RuleCall → Program
  | [] => p
  | call :: rest =>
    match p.readRule call.text call.line with
    | .ok (q, _) => q.after rest
    | .error _ => p.after rest

/-- Reading rules into a program is reading them in place. -/
theorem after_table (p : Program) (calls : List RuleCall) :
    p.table.after calls = (p.after calls).table := by
  induction calls generalizing p with
  | nil => rfl
  | cons call rest ih =>
    rw [StateTable.after, readRule_table, after]
    cases hcall : p.readRule call.text call.line with
    | error e => exact ih p
    | ok taken => exact ih taken.1

end Program

/-! ## Refused calls -/

theorem Transition.read_ne_duplicate {text : String} {line : Int} (trigger : Symbol) (name : String)
    (first : Int) : Transition.read text line ≠ .error (.duplicate trigger name first) := by
  unfold Transition.read
  repeat' split
  all_goals simp only [ne_eq, reduceCtorEq, not_false_eq_true, Except.error.injEq]

/-- The form of a text is never at fault for an earlier rule. -/
theorem Rule.read_ne_duplicate {text : String} {line : Int} (trigger : Symbol) (name : String)
    (first : Int) : Rule.read text line ≠ .error (.duplicate trigger name first) := by
  unfold Rule.read
  simp only
  repeat' split
  all_goals try simp only [ne_eq, reduceCtorEq, not_false_eq_true, Except.error.injEq]
  cases ht : Transition.read _ line with
  | ok t => simp [Except.map]
  | error fault =>
    intro h
    cases h
    exact Transition.read_ne_duplicate _ _ _ ht

namespace StateTable

variable {m : StateTable} {calls : List RuleCall}

/-- What is in the table after calls on an empty one was read by the first call with the state and the
trigger. -/
theorem exists_first_call {name : String} {trigger : Symbol} {t : Transition}
    (h : (empty.after calls).transition? name trigger = some t) :
    ∃ call, FirstIn calls (fun c => ∃ t, Rule.read c.text c.line = .ok ⟨name, trigger, t⟩) call ∧
      Rule.read call.text call.line = .ok ⟨name, trigger, t⟩ := by
  have hempty : empty.transition? name trigger = none := rfl
  rw [transition?_after, hempty, Option.none_or] at h
  obtain ⟨call, hfirst, hcall⟩ := findSome?_eq_some_iff_firstIn.mp h
  refine ⟨call, (FirstIn.congr fun c _ => ?_).mp hfirst, RuleCall.defines?_eq_some.mp hcall⟩
  rw [Option.ne_none_iff_exists']
  exact exists_congr fun t => RuleCall.defines?_eq_some

/-- After any calls, refused ones among them, the table is that of the program which was given the same
calls, and every state in it has a transition. A further call does the same to both. If it is refused,
the table is as it was and the error is on the line of the call; an error about an earlier rule names
the line of the first call with that state and trigger. If it is not, one transition was added. -/
theorem readRule_atomic (calls : List RuleCall) (call : RuleCall) :
    let m := empty.after calls
    let p := Program.empty.after calls
    m = p.table ∧ m.readRule call = p.inPlace (p.readRule call.text call.line) ∧ m.Sound ∧
    match m.readRule call with
    | (.error e, m') => m' = m ∧ e.line = call.line ∧
      ∀ trigger name first, e.fault = .duplicate trigger name first →
        ∃ t c, m.transition? name trigger = some t ∧ t.line = first ∧
          FirstIn calls (fun c => ∃ t, Rule.read c.text c.line = .ok ⟨name, trigger, t⟩) c ∧
          c.line = first
    | (.ok name, m') => ∃ r, Rule.read call.text call.line = .ok r ∧ r.state = name ∧ Adds m m' r := by
  intro m p
  have htable : m = p.table := Program.after_table Program.empty calls
  have hsound : m.Sound := sound_empty.after calls
  refine ⟨htable, htable ▸ p.readRule_table call, hsound, ?_⟩
  rcases m.readRule_cases call with
    ⟨fault, hr, hcall⟩ | ⟨r, hr, ⟨t, ht, hcall⟩ | ⟨hfree, hcall⟩⟩
  · rw [hcall]
    refine ⟨rfl, rfl, ?_⟩
    rintro trigger name first rfl
    exact absurd hr (Rule.read_ne_duplicate trigger name first)
  · rw [hcall]
    refine ⟨rfl, rfl, ?_⟩
    intro trigger name first he
    cases he
    obtain ⟨c, hfirst, hc⟩ := exists_first_call ht
    have hline : t.line = c.line := Rule.line_of_read hc
    exact ⟨t, c, ht, rfl, hfirst, hline.symm⟩
  · rw [hcall]
    exact ⟨r, hr, rfl, adds_withRule hfree⟩

/-- After a line that is no rule, a call returns the name of its state and adds its rule. -/
example : (empty.after [⟨"C,z ->", 4⟩]).readRule ⟨"A,x -> B,y,r", 3⟩ =
    (.ok "A", empty.withRule ⟨"A", "x", ⟨"B", "y", .right, 3⟩⟩) := by rfl

/-- A rule that is refused for an earlier one leaves no state behind. -/
example : (empty.after [⟨"A,x -> B,y,r", 3⟩, ⟨"C,z ->", 4⟩]).readRule ⟨"A,x -> C,z,l", 7⟩ =
    (.error ⟨7, .duplicate "x" "A" 3⟩, empty.after [⟨"A,x -> B,y,r", 3⟩]) := by rfl

end StateTable

end TapeMachine
