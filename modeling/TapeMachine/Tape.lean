import TapeMachine.Host
import TapeMachine.Rule
import TapeMachine.Text.Integer

/-!
# Tapes

A tape is a row of cells of a fixed size. A fresh tape begins with a blank, the given contents
follow, and the rest is blank.

## Main statements

* `Tape.create_eq_ok`, `Tape.size_of_create` — when there is a fresh tape, and of what size
* `Tape.symbolsOf_contents` — a tape reads back from its contents
* `Tape.position?_of_nonneg`, `Tape.position?_of_neg` — where a direct access goes
* `Tape.shown_append_blanks` — blanks at the end change nothing about what is shown
* `Tape.markFault?_of_le`, `Tape.markFault?_of_near` — a head on a tape, or just off it, can be shown
-/

namespace TapeMachine

/-- The cells of a tape. -/
abbrev Tape := Array Symbol

/-- Why there is no tape for some contents and a size. -/
inductive TapeError where
  | badSize (size : Int)
  | tooSmall
  deriving DecidableEq, Repr

/-- What is said of a size that is not positive. -/
def TapeError.sizeMessage (size : String) : String := s!"Tape size must be positive, got {size}"

def TapeError.message : TapeError → String
  | badSize size => sizeMessage (Int.repr size)
  | tooSmall => "Prefix cannot be stored in a tape so small"

namespace Tape

/-! ## Fresh tapes -/

/-- Cells with blanks after them, up to a size. -/
def ofCells (cells : List Symbol) (size : Nat) : Tape :=
  cells.toArray ++ Array.replicate (size - cells.length) Symbol.blank

theorem size_ofCells {cells : List Symbol} {size : Nat} (h : cells.length ≤ size) :
    (ofCells cells size).size = size := by simp [ofCells]; omega

/-- A fresh tape: a blank, the contents, and blanks up to the size. -/
def create (contents : String) (size : Int) : Except TapeError Tape :=
  let cells := Symbol.blank :: symbolsOf contents
  if size ≤ 0 then .error (.badSize size)
  else if size < (cells.length : Int) then .error .tooSmall
  else .ok (ofCells cells size.toNat)

/-- A cell of a fresh tape is one of those given, or blank. -/
theorem mem_ofCells {cells : List Symbol} {size i : Nat} {cell : Symbol}
    (h : (ofCells cells size)[i]? = some cell) : cell ∈ cells ∨ cell = Symbol.blank := by
  have hm : cell ∈ ofCells cells size := Array.mem_of_getElem? h
  simp only [ofCells, Array.mem_append, List.mem_toArray, Array.mem_replicate] at hm
  rcases hm with hm | ⟨-, hm⟩
  · exact Or.inl hm
  · exact Or.inr hm

theorem create_eq_ok {contents : String} {size : Int} {tape : Tape} :
    create contents size = .ok tape ↔ (contents.length : Int) + 1 ≤ size ∧
      tape = ofCells (Symbol.blank :: symbolsOf contents) size.toNat := by
  unfold create
  simp only [List.length_cons, length_symbolsOf]
  by_cases h1 : size ≤ 0
  · rw [if_pos h1]
    simp only [reduceCtorEq, false_iff, not_and]
    omega
  · rw [if_neg h1]
    by_cases h2 : size < (contents.length + 1 : Nat)
    · rw [if_pos h2]
      simp only [reduceCtorEq, false_iff, not_and]
      omega
    · rw [if_neg h2, Except.ok.injEq, eq_comm]
      exact ⟨fun h => ⟨by omega, h⟩, fun h => h.2⟩

theorem size_of_create {contents : String} {size : Int} {tape : Tape}
    (h : create contents size = .ok tape) : (tape.size : Int) = size := by
  obtain ⟨hs, rfl⟩ := create_eq_ok.mp h
  rw [size_ofCells]
  · omega
  · rw [List.length_cons, length_symbolsOf]
    omega

/-- The tape of exactly the given cells; there must be at least one. -/
def exactly (cells : List Symbol) : Except TapeError Tape :=
  if cells = [] then .error (.badSize 0) else .ok cells.toArray

def contents (t : Tape) : String := String.join t.toList

/-- A tape of single characters reads back from its contents. -/
theorem symbolsOf_contents {t : Tape} (h : ∀ cell ∈ t, cell.length = 1) :
    symbolsOf t.contents = t.toList :=
  symbolsOf_join fun cell hc => h cell (Array.mem_toList_iff.mp hc)

/-! ## Direct access -/

/-- The cell that a position means: one below zero counts from the end, where `-1` is the last. -/
def position? (t : Tape) (i : Int) : Option Nat :=
  if 0 ≤ i ∧ i < t.size then some i.toNat
  else if -(t.size : Int) ≤ i ∧ i < 0 then some (i + t.size).toNat
  else none

def read? (t : Tape) (i : Int) : Option Symbol := (t.position? i).bind fun n => t[n]?

/-- The tape with a symbol in a cell. -/
def write? (t : Tape) (i : Int) (s : Symbol) : Option Tape :=
  (t.position? i).map fun n => t.setIfInBounds n s

theorem position?_of_nonneg {t : Tape} {i : Nat} (h : i < t.size) : t.position? i = some i := by
  have h' : (0 : Int) ≤ i ∧ (i : Int) < t.size := by omega
  simp only [position?, if_pos h', Int.toNat_natCast]

theorem position?_of_neg {t : Tape} {i : Nat} (h : i < t.size) :
    t.position? (-(i : Int) - 1) = some (t.size - 1 - i) := by
  have h1 : ¬(0 ≤ -(i : Int) - 1 ∧ -(i : Int) - 1 < t.size) := by omega
  have h2 : -(t.size : Int) ≤ -(i : Int) - 1 ∧ -(i : Int) - 1 < 0 := by omega
  simp only [position?, if_neg h1, if_pos h2, Option.some.injEq]
  omega

/-! ## Display -/

def dropBlanks (cells : List Symbol) : List Symbol :=
  (cells.reverse.dropWhile (· == Symbol.blank)).reverse

/-- The cells worth showing: all up to the head, and those after it up to the last that is not
blank. -/
def shown (cells : List Symbol) (head : Int) : List Symbol :=
  let upToHead := head.toNat + 1
  cells.take upToHead ++ dropBlanks (cells.drop upToHead)

/-- A mark under the head's cell, with the head's position. -/
def marker (head : Int) : String :=
  String.ofList (List.replicate head.toNat ' ') ++ s!"^ [{head}]"

/-- Why there is no mark for a head. -/
inductive MarkFault where
  /-- The head is farther out than any text is long. -/
  | beyondText
  /-- Memory does not hold the blanks before the mark. -/
  | beyondMemory
  /-- The position has more digits than are ever written. -/
  | tooManyDigits
  deriving DecidableEq, Repr

/-- Why a head cannot be shown, if it cannot. -/
def markFault? [Host] (head : Int) : Option MarkFault :=
  if (1 <<< 63 : Nat) ≤ head then some .beyondText
  else if Host.mostBlanks < head then some .beyondMemory
  else if head ≤ -(Nat.pow 10 Text.maxDigits : Nat) then some .tooManyDigits
  else none

/-- The tape as the user sees it: the cells worth showing, and the marker under them. -/
def render (cells : List Symbol) (head : Int) : String :=
  String.join (shown cells head) ++ "\n" ++ marker head

/-- A head on a tape or just off it can be shown if the position after the last cell can. -/
theorem markFault?_of_le [Host] {head limit : Int} (h : markFault? limit = none) (h₁ : -1 ≤ head)
    (h₂ : head ≤ limit) : markFault? head = none := by
  have hten : ∀ {n : Nat}, n ≠ 0 → 1 < Nat.pow 10 n := fun hn => Nat.one_lt_pow hn (by decide)
  have hdigits : 1 < Nat.pow 10 Text.maxDigits := hten (by decide)
  unfold markFault? at h ⊢
  split at h
  · cases h
  · split at h
    · cases h
    · rw [if_neg (by omega), if_neg (by omega), if_neg (by omega)]

/-- A head on a tape that memory holds, or just off it, can be shown. -/
theorem markFault?_of_near [Host] {head : Int} (h₁ : -1 ≤ head) (h₂ : head ≤ Host.mostCells) :
    markFault? head = none := by
  have hroom := Host.mostCells_le
  have hshort := Host.mostBlanks_lt
  have hten : ∀ n, 0 < Nat.pow 10 n := fun n => Nat.pow_pos (by decide)
  have hdigits : 0 < Nat.pow 10 Text.maxDigits := hten _
  have hlast : markFault? (Host.mostCells : Int) = none := by
    unfold markFault?
    rw [if_neg (by omega), if_neg (by omega), if_neg (by omega)]
  exact markFault?_of_le hlast h₁ h₂

theorem dropBlanks_append_blanks (cells : List Symbol) (n : Nat) :
    dropBlanks (cells ++ List.replicate n Symbol.blank) = dropBlanks cells := by
  unfold dropBlanks
  rw [List.reverse_append, List.reverse_replicate]
  induction n with
  | zero => simp
  | succ n ih => rw [List.replicate_succ, List.cons_append, List.dropWhile_cons_of_pos (by simp)]; exact ih

/-- Blanks at the end change nothing about what is shown, if the head is on the tape. -/
theorem shown_append_blanks {cells : List Symbol} {head : Int} (n : Nat)
    (h : head.toNat < cells.length) :
    shown (cells ++ List.replicate n Symbol.blank) head = shown cells head := by
  unfold shown
  simp only
  rw [List.take_append_of_le_length (by omega), List.drop_append_of_le_length (by omega),
    dropBlanks_append_blanks]

end Tape

end TapeMachine
