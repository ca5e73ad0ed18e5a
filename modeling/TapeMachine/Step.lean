import TapeMachine.Configuration
import TapeMachine.Program.Reach

/-!
# Steps

One step looks up the transition for the state and the scanned symbol, writes, moves, and enters the
next state. It ends the run if that is a halting state, or if there is nothing to do: the head is off
the tape before or after the move, no rule applies, or the next state does not exist.

## Main statements

* `step_of_choose_error` — a step without a transition changes nothing
* `follow_cases` — all that following a transition can come to
* `of_step_running`, `of_step_failed` — when a run goes on, and when it fails
* `steps_follow` — a step with a transition is counted, whatever comes of it
-/

namespace TapeMachine

/-! ## Outcomes -/

/-- Why a run cannot go on. -/
inductive Fault where
  /-- The head is off the tape before the step. -/
  | outside
  /-- No rule of the state applies to the symbol. -/
  | noTransition (cell : Symbol)
  /-- The transition for the symbol moved the head off the tape. -/
  | fellOff (cell : Symbol) (t : Transition)
  /-- The transition goes to a state that the program does not have. -/
  | missingState (name : String)
  deriving DecidableEq, Repr

/-- What the user is told, given the configuration in which the run ended. -/
def Fault.message (c : Configuration) : Fault → String
  | outside => c.render ++ "\nRead/write head is outside the tape"
  | noTransition cell => c.render ++ "\nNo transition in " ++ c.state.name ++ " for " ++ cell
  | fellOff cell t => c.render ++ "\n" ++ c.state.ruleText cell t ++ "\nWent out of bounds."
  | missingState name => "State " ++ name ++ " does not exist"

/-- What the user is told, if the configuration can be shown where that is part of it. -/
def Fault.report [Host] (c : Configuration) (fault : Fault) : Except Tape.MarkFault String :=
  match fault, Tape.markFault? c.head with
  | missingState _, _ => .ok (fault.message c)
  | _, none => .ok (fault.message c)
  | _, some e => .error e

/-- Where a run stands after a step. -/
inductive Status where
  | running
  | halted (accepted : Bool)
  | failed (fault : Fault)
  deriving DecidableEq, Repr

/-! ## A single step -/

namespace Configuration

/-- The scanned symbol and the transition for it. -/
def choose (c : Configuration) : Except Fault (Symbol × Transition) :=
  match c.scanned? with
  | none => .error .outside
  | some cell =>
    match c.state.lookup cell with
    | none => .error (.noTransition cell)
    | some t => .ok (cell, t)

/-- Writes, moves the head and counts the step; the state stays. -/
def act (t : Transition) : Configuration → Configuration
  | ⟨tape, head, state, steps⟩ =>
    ⟨if t.writes then tape.setIfInBounds head.toNat t.write else tape, head + t.move.delta, state,
      steps + 1⟩

/-- A transition leaves the size of the tape as it is. -/
theorem size_act (t : Transition) (c : Configuration) : (c.act t).tape.size = c.tape.size := by
  unfold act
  dsimp only
  split
  · exact Array.size_setIfInBounds
  · rfl

end Configuration

/-- Follows a transition that was chosen for a symbol. -/
def follow (p : Program) (cell : Symbol) (t : Transition) (c : Configuration) :
    Configuration × Status :=
  -- the transition takes effect before anything can go wrong
  let c := c.act t
  if !c.inBounds then (c, .failed (.fellOff cell t))
  else if isHalting t.next then (c, .halted (t.next = acceptName))
  else match p.find? t.next with
    | none => (c, .failed (.missingState t.next))
    | some s => ({ c with state := s }, .running)

/-- One step of a program. -/
def step (p : Program) (c : Configuration) : Configuration × Status :=
  match c.choose with
  | .error fault => (c, .failed fault)
  | .ok (cell, t) => follow p cell t c

theorem step_of_choose_error {p : Program} {c : Configuration} {fault : Fault}
    (h : c.choose = .error fault) : step p c = (c, .failed fault) := by simp [step, h]

theorem step_of_choose_ok {p : Program} {c : Configuration} {cell : Symbol} {t : Transition}
    (h : c.choose = .ok (cell, t)) : step p c = follow p cell t c := by simp [step, h]

theorem Configuration.choose_eq_ok {c : Configuration} {cell : Symbol} {t : Transition} :
    c.choose = .ok (cell, t) ↔ c.scanned? = some cell ∧ c.state.lookup cell = some t := by
  unfold choose
  cases hs : c.scanned? with
  | none => simp
  | some cell' =>
    cases hl : c.state.lookup cell' with
    | none =>
      simp only [hl, Option.some.injEq, reduceCtorEq, false_iff, not_and]
      rintro rfl h
      simp [hl] at h
    | some t' =>
      simp only [hl, Except.ok.injEq, Prod.mk.injEq, Option.some.injEq]
      constructor
      · rintro ⟨rfl, rfl⟩
        exact ⟨rfl, hl⟩
      · rintro ⟨rfl, h⟩
        rw [hl, Option.some.injEq] at h
        exact ⟨rfl, h⟩

theorem Configuration.choose_eq_error {c : Configuration} {fault : Fault} :
    c.choose = .error fault ↔ c.scanned? = none ∧ fault = .outside ∨
      ∃ cell, c.scanned? = some cell ∧ c.state.lookup cell = none ∧ fault = .noTransition cell := by
  unfold choose
  cases hs : c.scanned? with
  | none => simp [eq_comm]
  | some cell =>
    cases hl : c.state.lookup cell with
    | none => simp [hl, eq_comm]
    | some t => simp [hl]

/-! What following a transition comes to, in the order in which things can go wrong. -/

theorem follow_of_outside {p : Program} {c : Configuration} {t : Transition} (cell : Symbol)
    (hb : (c.act t).inBounds = false) : follow p cell t c = (c.act t, .failed (.fellOff cell t)) := by
  simp [follow, hb]

theorem follow_of_halting {p : Program} {c : Configuration} {t : Transition} (cell : Symbol)
    (hb : (c.act t).inBounds = true) (hh : isHalting t.next = true) :
    follow p cell t c = (c.act t, .halted (t.next = acceptName)) := by simp [follow, hb, hh]

theorem follow_of_missing {p : Program} {c : Configuration} {t : Transition} (cell : Symbol)
    (hb : (c.act t).inBounds = true) (hh : isHalting t.next = false)
    (hf : p.find? t.next = none) :
    follow p cell t c = (c.act t, .failed (.missingState t.next)) := by simp [follow, hb, hh, hf]

theorem follow_of_find? {p : Program} {c : Configuration} {t : Transition} {s : State}
    (cell : Symbol) (hb : (c.act t).inBounds = true) (hh : isHalting t.next = false)
    (hf : p.find? t.next = some s) :
    follow p cell t c = ({ c.act t with state := s }, .running) := by simp [follow, hb, hh, hf]

theorem follow_cases (p : Program) (cell : Symbol) (t : Transition) (c : Configuration) :
    ((c.act t).inBounds = false ∧ follow p cell t c = (c.act t, .failed (.fellOff cell t))) ∨
    ((c.act t).inBounds = true ∧ isHalting t.next = true ∧
      follow p cell t c = (c.act t, .halted (t.next = acceptName))) ∨
    ((c.act t).inBounds = true ∧ isHalting t.next = false ∧ p.find? t.next = none ∧
      follow p cell t c = (c.act t, .failed (.missingState t.next))) ∨
    ((c.act t).inBounds = true ∧ isHalting t.next = false ∧ ∃ s, p.find? t.next = some s ∧
      follow p cell t c = ({ c.act t with state := s }, .running)) := by
  cases hb : (c.act t).inBounds with
  | false => exact Or.inl ⟨rfl, follow_of_outside cell hb⟩
  | true =>
    cases hh : isHalting t.next with
    | true => exact Or.inr (Or.inl ⟨rfl, rfl, follow_of_halting cell hb hh⟩)
    | false =>
      cases hf : p.find? t.next with
      | none => exact Or.inr (Or.inr (Or.inl ⟨rfl, rfl, rfl, follow_of_missing cell hb hh hf⟩))
      | some s =>
        exact Or.inr (Or.inr (Or.inr ⟨rfl, rfl, s, rfl, follow_of_find? cell hb hh hf⟩))

/-- Following a transition is to act, and perhaps to change the state. -/
theorem exists_follow_eq (p : Program) (cell : Symbol) (t : Transition) (c : Configuration) :
    ∃ s, (follow p cell t c).1 = { c.act t with state := s } := by
  rcases follow_cases p cell t c with ⟨-, he⟩ | ⟨-, -, he⟩ | ⟨-, -, -, he⟩ | ⟨-, -, s, -, he⟩
  · exact ⟨_, by rw [he]⟩
  · exact ⟨_, by rw [he]⟩
  · exact ⟨_, by rw [he]⟩
  · exact ⟨s, by rw [he]⟩

/-- A run goes on only if a transition was chosen, stays on the tape and goes to a state. -/
theorem of_step_running {p : Program} {c c' : Configuration} (h : step p c = (c', .running)) :
    ∃ cell t s, c.choose = .ok (cell, t) ∧ (c.act t).inBounds = true ∧
      isHalting t.next = false ∧ p.find? t.next = some s ∧ c' = { c.act t with state := s } := by
  cases hc : c.choose with
  | error fault => simp [step_of_choose_error hc] at h
  | ok chosen =>
    obtain ⟨cell, t⟩ := chosen
    rw [step_of_choose_ok hc] at h
    rcases follow_cases p cell t c with ⟨-, he⟩ | ⟨-, -, he⟩ | ⟨-, -, -, he⟩ | ⟨hb, hh, s, hf, he⟩
    · simp [he] at h
    · simp [he] at h
    · simp [he] at h
    · rw [he] at h
      cases h
      exact ⟨cell, t, s, rfl, hb, hh, hf, rfl⟩

/-- A run fails if there is no transition, or if the transition leaves the tape or goes to a state
that does not exist. -/
theorem of_step_failed {p : Program} {c c' : Configuration} {fault : Fault}
    (h : step p c = (c', .failed fault)) : c.choose = .error fault ∧ c' = c ∨
      ∃ cell t, c.choose = .ok (cell, t) ∧ c' = c.act t ∧
        ((c.act t).inBounds = false ∧ fault = .fellOff cell t ∨
          isHalting t.next = false ∧ p.find? t.next = none ∧ fault = .missingState t.next) := by
  cases hc : c.choose with
  | error fault' =>
    rw [step_of_choose_error hc] at h
    cases h
    exact Or.inl ⟨rfl, rfl⟩
  | ok chosen =>
    obtain ⟨cell, t⟩ := chosen
    rw [step_of_choose_ok hc] at h
    right
    rcases follow_cases p cell t c with ⟨hb, he⟩ | ⟨-, -, he⟩ | ⟨-, hh, hf, he⟩ | ⟨-, -, s, -, he⟩
    · rw [he] at h
      cases h
      exact ⟨cell, t, rfl, rfl, Or.inl ⟨hb, rfl⟩⟩
    · simp [he] at h
    · rw [he] at h
      cases h
      exact ⟨cell, t, rfl, rfl, Or.inr ⟨hh, hf, rfl⟩⟩
    · simp [he] at h

theorem steps_follow (p : Program) (cell : Symbol) (t : Transition) (c : Configuration) :
    (follow p cell t c).1.steps = c.steps + 1 := by
  unfold follow
  simp only
  split
  · rfl
  · split
    · rfl
    · split <;> rfl

/-- A step that leaves the run going is counted. -/
theorem steps_of_step_running {p : Program} {c c' : Configuration}
    (h : step p c = (c', .running)) : c'.steps = c.steps + 1 := by
  unfold step at h
  split at h
  · simp at h
  · rw [← steps_follow p, h]

end TapeMachine
