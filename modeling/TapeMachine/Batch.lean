/-!
# Batches

A long list is worked off in batches: stretches of a fixed size, from a position on. Positions may
be below zero, which counts from the end of the list, and a size below zero goes backwards.

## Main statements

* `slice_of_nonneg` — between positions on the list, a slice is what one expects
* `Batch.number_first` — batches are counted from one
-/

namespace TapeMachine

/-! ## Positions -/

/-- The positions from `start` in steps of `step` until `stop` is reached or passed; a step of zero
gives none. -/
def positions (start stop step : Int) : List Int :=
  let count :=
    if 0 < step then (stop - start + step - 1).fdiv step
    else if step < 0 then (start - stop - step - 1).fdiv (-step)
    else 0
  (List.range count.toNat).map fun (i : Nat) => start + (i : Int) * step

/-- A position on a list of a length: below zero it counts from the end, and it never leaves the
list. -/
def clampPosition (length : Nat) (i : Int) : Nat :=
  if i < 0 then (i + length).toNat else min i.toNat length

/-- The stretch of a list between two positions. -/
def slice {α : Type} (l : List α) (first last : Int) : List α :=
  let a := clampPosition l.length first
  let b := clampPosition l.length last
  (l.take b).drop a

theorem slice_of_nonneg {α : Type} (l : List α) (a b : Nat) :
    slice l a b = (l.take b).drop a := by
  have hb : l.take (min b l.length) = l.take b := by
    rcases Nat.le_total b l.length with h | h
    · rw [Nat.min_eq_left h]
    · rw [Nat.min_eq_right h, List.take_length, List.take_of_length_le h]
  have hna : ¬((a : Int) < 0) := by omega
  have hnb : ¬((b : Int) < 0) := by omega
  simp only [slice, clampPosition, if_neg hna, if_neg hnb, Int.toNat_natCast, hb]
  rcases Nat.le_total a l.length with h | h
  · rw [Nat.min_eq_left h]
  · rw [Nat.min_eq_right h]
    have hlen : (l.take b).length ≤ l.length := List.length_take_le' b l
    rw [List.drop_eq_nil_of_le hlen, List.drop_eq_nil_of_le (by omega)]

/-! ## Batches -/

/-- Inputs that are worked off together, and the position of the first. -/
structure Batch where
  start : Int
  inputs : List String
  deriving DecidableEq, Repr

namespace Batch

/-- The batches of a size from a position on. -/
def split (inputs : List String) (completed size : Int) : List Batch :=
  (positions completed inputs.length size).map fun start =>
    ⟨start, slice inputs start (start + size)⟩

def next (b : Batch) : Int := b.start + b.inputs.length

/-- The number of the batch, by which it is announced. -/
def number (b : Batch) (size : Int) : Int := b.start.fdiv size + 1

theorem number_first (inputs : List String) (size : Int) : number ⟨0, inputs⟩ size = 1 := by
  simp [number]

end Batch

end TapeMachine
