import TapeMachine.Console
import TapeMachine.Text.Words

/-!
# Commands of a shell

A typed line names a command and gives its arguments. A command has bounds on the number of its
arguments; of two commands of one name only the first is ever meant.

## Main statements

* `Shell.select_blank` — an empty line selects nothing and says nothing
-/

namespace TapeMachine

namespace Shell

/-- A command, with the action that it stands for. -/
structure Command (α : Type) where
  name : String
  minArgs : Int
  maxArgs : Int
  usage : String
  description : String
  action : α

/-- The command with another action in place of its own. -/
def Command.map {α β : Type} (f : α → β) (c : Command α) : Command β :=
  { c with action := f c.action }

/-- What a line means. -/
inductive Selection (α : Type) where
  /-- Do the action with these arguments. -/
  | act (action : α) (args : List String)
  /-- Do nothing, but say something unless the line is empty. -/
  | refuse (reply : Option Event)

def select {α : Type} (commands : List (Command α)) (line : String) : Selection α :=
  match Text.words line with
  | .error fault =>
    .refuse (some (.marked ("[red]Could not parse command: " ++ fault.message ++ "[/red]")))
  | .ok [] => .refuse none
  | .ok (name :: args) =>
    match commands.find? fun c => c.name = name with
    | none => .refuse (some (.plain s!"Unknown command: {name}"))
    | some c =>
      if args.length < c.minArgs ∨ c.maxArgs < args.length then
        .refuse (some (.plain ("Usage: " ++ c.usage)))
      else .act c.action args

/-- Does what a line says; whether an action was done. -/
def dispatch {m : Type → Type} [Monad m] (say : Event → m Unit)
    (commands : List (Command (List String → m Unit))) (line : String) : m Bool :=
  match select commands line with
  | .act action args => do action args; return true
  | .refuse none => return false
  | .refuse (some e) => do say e; return false

theorem select_blank {α : Type} (commands : List (Command α)) :
    select commands "" = .refuse none := rfl

end Shell

end TapeMachine
