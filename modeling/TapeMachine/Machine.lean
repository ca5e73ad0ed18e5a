import TapeMachine.Program.Validity

/-!
# Machines

A machine is a program together with an alphabet over which it is valid.

## Main statements

* `Machine.compile_eq_ok` — what a machine was compiled from is its alphabet and its program
* `Machine.find?_startName` — a machine's start state is the state of that name
-/

namespace TapeMachine

/-- Why a text and an alphabet give no machine. -/
inductive CompileError where
  | parse (e : ParseError)
  | semantic (e : SemanticError)
  deriving Repr

def CompileError.message : CompileError → String
  | parse e => e.message
  | semantic e => e.message

/-- A program that is valid over an alphabet, with its start state. -/
structure Machine where
  alphabet : Alphabet
  program : Program
  start : State
  valid : program.check alphabet = .ok start

namespace Machine

/-- The machine of a program that is valid over an alphabet. -/
def ofProgram (program : Program) (alphabet : Alphabet) : Except SemanticError Machine :=
  match h : program.check alphabet with
  | .error e => .error e
  | .ok start => .ok ⟨alphabet, program, start, h⟩

/-- The machine of a program's text over the alphabet of given items. Errors of the alphabet come
first, then those of the text, then those of meaning. -/
def compile (source : String) (items : List Json) : Except CompileError Machine :=
  -- the alphabet does not depend on the text, so its errors come first
  match Alphabet.ofItems items with
  | .error e => .error (.semantic e)
  | .ok alphabet =>
    match Program.read source with
    | .error e => .error (.parse e)
    | .ok program =>
      match ofProgram program alphabet with
      | .error e => .error (.semantic e)
      | .ok m => .ok m

/-- A machine is made of its own program and alphabet only. -/
theorem ofProgram_eq_ok {program : Program} {alphabet : Alphabet} {m : Machine} :
    ofProgram program alphabet = .ok m ↔ m.program = program ∧ m.alphabet = alphabet := by
  unfold ofProgram
  constructor
  · intro h
    split at h
    · simp at h
    · cases h
      exact ⟨rfl, rfl⟩
  · rintro ⟨rfl, rfl⟩
    split
    · next e hv =>
      rw [m.valid] at hv
      cases hv
    · next start hv =>
      rw [m.valid] at hv
      cases hv
      rfl

theorem compile_eq_ok {source : String} {items : List Json} {m : Machine} :
    compile source items = .ok m ↔
      Alphabet.ofItems items = .ok m.alphabet ∧ Program.read source = .ok m.program := by
  unfold compile
  cases ha : Alphabet.ofItems items with
  | error e => simp
  | ok alphabet =>
    cases hp : Program.read source with
    | error e => simp
    | ok program =>
      have hm := @ofProgram_eq_ok program alphabet m
      simp only [Except.ok.injEq]
      rw [@eq_comm _ alphabet, @eq_comm _ program, and_comm, ← hm]
      cases ofProgram program alphabet <;> simp

theorem find?_startName (m : Machine) : m.program.find? startName = some m.start :=
  (Program.check_eq_ok.mp m.valid).1

/-- The states that a run can enter, depth first. -/
def reachable (m : Machine) : List State := m.program.reachable

/-- The rules of the states that a run can enter, as a program has them. -/
def dump (m : Machine) : String := String.join (m.reachable.map State.source)

end Machine

end TapeMachine
