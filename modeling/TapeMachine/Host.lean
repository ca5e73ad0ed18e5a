import TapeMachine.Console

/-!
# Hosts

What the program finds where it runs: how much memory there is, how deep calls can go, in which
directory it works, what it may read and write there, and which texts the console takes. None of this
is known beforehand, so what is said of the program is said for every host. A host has the laws that
the program relies on, and no others.

## Main statements

* `Host.takes_styled_mark` — a mark of the program's own around a text without marks is taken
* `Host.takes_line_of_unmarked` — a line without marks is taken
-/

namespace TapeMachine

/-- Names from the root of the file system to a file or directory. -/
abbrev Location := List String

/-- Where the program runs. -/
class Host where
  /-- How many cells of a tape memory holds. -/
  mostCells : Nat
  /-- How many blanks in a row memory holds. -/
  mostBlanks : Nat
  /-- How many directories can be made for one path, each by a call within the one before. -/
  mostMade : Nat
  /-- How many lists and objects can be open at one place of a JSON text. -/
  mostOpen : Nat
  /-- The working directory. -/
  home : Location
  /-- Whether a file may be read. -/
  mayRead : Location → Bool
  /-- Whether a file or directory may be written, or made where there is none. -/
  mayWrite : Location → Bool
  /-- Whether the console refuses a text for its marks. -/
  refuses : String → Bool
  /-- Under a tape that memory holds there is room for the mark of its head. -/
  mostCells_le : mostCells ≤ mostBlanks
  /-- No text is as long as this. -/
  mostBlanks_lt : mostBlanks < 1 <<< 63
  mostMade_pos : 0 < mostMade
  mostOpen_pos : 0 < mostOpen
  takes_unmarked : ∀ {text : String}, Marks.unmarked text = true → refuses text = false
  takes_styled : ∀ {style text : String}, Marks.isStyle style.toList = true →
    Marks.unmarked text = true → refuses (Marks.styled style text) = false

namespace Host

/-- A host with room for a thousand million cells, where all files may be read and written. Its console
refuses a text with a mark that closes what is not open. -/
@[reducible] def usual : Host where
  mostCells := 1 <<< 30
  mostBlanks := 1 <<< 36
  mostMade := 980
  mostOpen := 985
  home := []
  mayRead _ := true
  mayWrite _ := true
  refuses := Marks.closesUnopened
  mostCells_le := by decide
  mostBlanks_lt := by decide
  mostMade_pos := by decide
  mostOpen_pos := by decide
  takes_unmarked := Marks.closesUnopened_of_unmarked
  takes_styled := Marks.closesUnopened_styled

/-- The usual host, with one place that may not be written. -/
@[reducible] def guarding (place : Location) : Host :=
  { usual with mayWrite := fun l => l ≠ place }

variable [Host]

/-- Whether the console takes an event. What is shown without marks is always taken; of a table every
text has to be. -/
def takes : Event → Bool
  | .line text _ markup _ => !markup || !refuses text
  | .table title columns rows => (title :: columns ++ rows.flatten).all fun text => !refuses text

theorem takes_marked (text : String) : takes (.marked text) = !refuses text := rfl

theorem takes_plain (text : String) : takes (.plain text) = true := rfl

/-- What is shown without marks is taken. -/
theorem takes_of_markup {e : Event} (h : e.markup = false) : takes e = true := by
  cases e with
  | table title columns rows => cases h
  | line text style markup ending =>
    obtain rfl : markup = false := h
    rfl

/-- A line without marks is taken. -/
theorem takes_line_of_unmarked {text : String} (h : Marks.unmarked text = true) :
    takes (.marked text) = true := by
  rw [takes_marked, takes_unmarked h]
  rfl

/-- A mark of the program's own around a text without marks is taken. -/
theorem takes_styled_mark {style text : String} (h : Marks.isStyle style.toList = true)
    (ht : Marks.unmarked text = true) : takes (.marked (Marks.styled style text)) = true := by
  rw [takes_marked, takes_styled h ht]
  rfl

end Host

end TapeMachine
