import TapeMachine.Console
import TapeMachine.Machine

/-!
# Inspector

A machine as a table: one row for each state that a run can enter, one column for each letter and
one for the wildcard. A cell shows the rule of the state for the symbol, shortened to what is
written, where the head goes, and which state is next.

## Main statements

* `Inspector.length_row` — a row has the name and one cell for each symbol
-/

namespace TapeMachine

/-- The capital letter for a movement in a table. -/
def Move.capital : Move → String
  | left => "L"
  | right => "R"
  | stay => "S"

/-- A transition in short: the write, the movement's capital, the next state. -/
def Transition.short (t : Transition) : String := t.write ++ t.move.capital ++ t.next

namespace Inspector

/-- What a cell shows if the state has no rule for the symbol. -/
def noRule : String := "-"

def symbols (m : Machine) : List Symbol := m.alphabet ++ [Symbol.wildcard]

/-- The cell of a state and a symbol. -/
def cell (s : State) (symbol : Symbol) : String :=
  ((s.rules.find? symbol).map Transition.short).getD noRule

def row (symbols : List Symbol) (s : State) : List String := s.name :: symbols.map (cell s)

def rows (m : Machine) : List (List String) := m.reachable.map (row (symbols m))

theorem length_row (symbols : List Symbol) (s : State) :
    (row symbols s).length = symbols.length + 1 := by simp [row]

/-! ## As a LaTeX array -/

/-- Text inside an array. -/
def latexText (s : String) : String := "\\text\x7b" ++ s ++ "\x7d"

def latexLine (cells : List String) : String :=
  String.intercalate " & " (cells.map latexText) ++ " \\\\"

def latex (symbols : List Symbol) (rows : List (List String)) : String :=
  String.intercalate "\n" (
    ["\\begin\x7barray\x7d\x7bc|" ++ String.ofList (List.replicate symbols.length 'c') ++ "\x7d",
      "State/Symbol & " ++ latexLine symbols ++ " \\hline"] ++
    rows.map latexLine ++ ["\\end\x7barray\x7d"])

/-! ## On the console -/

/-- The table, and the LaTeX array if it is wanted. -/
def events (m : Machine) (withLatex : Bool) : List Event :=
  let table := Event.table "Transition Table" ("State" :: symbols m) (rows m)
  if withLatex then
    [table, .marked "\n=== LaTeX Table ===", .plain (latex (symbols m) (rows m))]
  else [table]

/-- What is shown of a machine that was read from a file. -/
def report (path : String) (m : Machine) (withLatex : Bool) : List Event :=
  [.plain s!"[INFO] Program {path}", .marked s!"  States: {m.program.states.length}",
    .plain ("  Alphabet: " ++ String.intercalate " " m.alphabet)] ++ events m withLatex

end Inspector

end TapeMachine
