import TapeMachine.Proofs.Calls

/-!
# Portions of results

The results of many calls are portions, each appended at once: the lines of the batch at the position
that the checkpoint said at the time. A portion after which the checkpoint was written moves the
position on by its lines. One after which it was not leaves the position, and the next portion begins
with the same input again.

## Main statements

* `Campaign.Chained.entry_of_saved` — if every portion moved the position on, line and input have the
  same number
* `Campaign.Chained.exists_surplus` — the portions of calls that are alike are one line for each input
  before the position, and a surplus
-/

namespace TapeMachine

namespace Campaign

/-! ## Batches of calls -/

/-- The line of an input. -/
def Call.entry (call : Call) (input : String) : Json :=
  (call.machine.evaluate input call.job.tapeSize call.job.maxSteps).toJson

/-- The lines of the batch at a position. -/
def Call.batchAt (call : Call) (c : Nat) : List Json :=
  ((call.inputs.drop c).take call.job.batchSize.toNat).map call.entry

/-- The same program, inputs and limits; batches may differ. -/
structure Call.Alike (call call' : Call) : Prop where
  machine : call.machine = call'.machine
  inputs : call.inputs = call'.inputs
  maxSteps : call.job.maxSteps = call'.job.maxSteps
  tapeSize : call.job.tapeSize = call'.job.tapeSize

theorem Call.Alike.entry {call call' : Call} (h : call.Alike call') : call.entry = call'.entry := by
  funext input
  rw [Call.entry, h.machine, h.maxSteps, h.tapeSize, Call.entry]

theorem Call.length_batchAt (call : Call) (c : Nat) :
    (call.batchAt c).length = min call.job.batchSize.toNat (call.inputs.length - c) := by
  rw [Call.batchAt, List.length_map, List.length_take, List.length_drop]

/-- The lines of a batch are the entries of the inputs from its position on. -/
theorem Call.getElem?_batchAt (call : Call) (c : Nat) {j : Nat} (h : j < (call.batchAt c).length) :
    ∃ input, call.inputs[c + j]? = some input ∧ (call.batchAt c)[j]? = some (call.entry input) := by
  rw [Call.length_batchAt] at h
  have hj : c + j < call.inputs.length := by omega
  refine ⟨call.inputs[c + j], List.getElem?_eq_getElem hj, ?_⟩
  rw [Call.batchAt, List.getElem?_map, List.getElem?_take_of_lt (by omega), List.getElem?_drop,
    List.getElem?_eq_getElem hj]
  rfl

/-- The entries before a position and the batch there are those before the position after it. -/
theorem Call.entries_take_append (call : Call) (c : Nat) :
    (call.inputs.take c).map call.entry ++ call.batchAt c =
      (call.inputs.take (c + (call.batchAt c).length)).map call.entry := by
  have hlength : (call.batchAt c).length = ((call.inputs.drop c).take
      call.job.batchSize.toNat).length := by rw [Call.batchAt, List.length_map]
  have hsame : (call.inputs.drop c).take (call.batchAt c).length =
      (call.inputs.drop c).take call.job.batchSize.toNat := by
    rw [hlength, List.length_take, ← List.take_eq_take_min]
  rw [List.take_add, hsame, List.map_append, Call.batchAt]

/-! ## Portions -/

/-- What was appended to the results at once. -/
structure Portion where
  /-- The call that appended it. -/
  call : Call
  text : String
  /-- Whether the checkpoint was written after it. -/
  saved : Bool

/-- The call that appended each line. -/
def authors (portions : List Portion) : List Call :=
  portions.flatMap fun p => List.replicate (p.text.toList.count '\n') p.call

/-- What portions are together. -/
def textOf (portions : List Portion) : String := String.join (portions.map Portion.text)

theorem textOf_append (xs ys : List Portion) : textOf (xs ++ ys) = textOf xs ++ textOf ys := by
  simp [textOf]

theorem authors_append_batch (portions : List Portion) (call : Call) (c : Nat) (saved : Bool) :
    authors (portions ++ [⟨call, Journal.logText (call.batchAt c), saved⟩]) =
      authors portions ++ List.replicate (call.batchAt c).length call := by
  simp [authors, Journal.count_newline_logText]

/-- Portions of which each is the batch at the position of the checkpoint at the time, with all their
lines and the position of the checkpoint after them. -/
inductive Chained : List Portion → List Json → Nat → Prop
  | nil : Chained [] [] 0
  | saved {portions : List Portion} {lines : List Json} {c : Nat} {call : Call}
      (h : Chained portions lines c) (hsize : 1 ≤ call.job.batchSize)
      (hlt : c < call.inputs.length) :
      Chained (portions ++ [⟨call, Journal.logText (call.batchAt c), true⟩])
        (lines ++ call.batchAt c) (c + (call.batchAt c).length)
  | lost {portions : List Portion} {lines : List Json} {c : Nat} {call : Call}
      (h : Chained portions lines c) (hsize : 1 ≤ call.job.batchSize)
      (hlt : c < call.inputs.length) :
      Chained (portions ++ [⟨call, Journal.logText (call.batchAt c), false⟩])
        (lines ++ call.batchAt c) c

namespace Chained

variable {call : Call} {portions : List Portion} {lines : List Json} {c : Nat}

theorem le (h : Chained portions lines c) : c ≤ lines.length := by
  induction h with
  | nil => exact Nat.le_refl 0
  | saved h hsize hlt ih =>
    rw [List.length_append]
    omega
  | lost h hsize hlt ih =>
    rw [List.length_append]
    omega

/-- The portions are the lines. -/
theorem text (h : Chained portions lines c) : Journal.logText lines = textOf portions := by
  induction h with
  | nil => rfl
  | saved h hsize hlt ih | lost h hsize hlt ih =>
    rw [Journal.logText_append, ih, textOf_append]
    simp [textOf]

theorem length_authors (h : Chained portions lines c) :
    (authors portions).length = lines.length := by
  induction h with
  | nil => rfl
  | saved h hsize hlt ih | lost h hsize hlt ih =>
    rw [authors_append_batch, List.length_append, List.length_append, ih, List.length_replicate]

/-- Each portion is a batch of the call that appended it. -/
theorem batch (h : Chained portions lines c) {p : Portion} (hp : p ∈ portions) :
    ∃ start < p.call.inputs.length, p.text = Journal.logText (p.call.batchAt start) := by
  induction h with
  | nil => cases hp
  | saved h hsize hlt ih | lost h hsize hlt ih =>
    rcases List.mem_append.mp hp with hp | hp
    · exact ih hp
    · rw [List.mem_singleton.mp hp]
      exact ⟨_, hlt, rfl⟩

/-- If the checkpoint was written after every portion, it says how many lines there are, and each
line is the entry of the input with its number. -/
theorem entry_of_saved (h : Chained portions lines c) (hsaved : ∀ p ∈ portions, p.saved = true) :
    lines.length = c ∧ ∀ (j : Nat) (call : Call), (authors portions)[j]? = some call →
      ∃ input, call.inputs[j]? = some input ∧ lines[j]? = some (call.entry input) := by
  induction h with
  | nil => exact ⟨rfl, nofun⟩
  | lost h hsize hlt ih =>
    have hlast := hsaved _ (List.mem_append_right _ (List.mem_singleton_self _))
    cases hlast
  | @saved portions lines c last h hsize hlt ih =>
    obtain ⟨hlength, hentry⟩ := ih fun p hp => hsaved p (List.mem_append_left _ hp)
    refine ⟨by rw [List.length_append, hlength], ?_⟩
    intro j call hj
    rw [authors_append_batch] at hj
    by_cases hlt' : j < lines.length
    · rw [List.getElem?_append_left (by rw [h.length_authors]; exact hlt')] at hj
      rw [List.getElem?_append_left hlt']
      exact hentry j call hj
    · rw [List.getElem?_append_right (by rw [h.length_authors]; omega), h.length_authors,
        List.getElem?_replicate] at hj
      rw [List.getElem?_append_right (by omega)]
      split at hj
      · next hbatch =>
        cases hj
        obtain ⟨input, hinput, hline⟩ := last.getElem?_batchAt c hbatch
        have hnumber : c + (j - lines.length) = j := by omega
        rw [hnumber] at hinput
        exact ⟨input, hinput, hline⟩
      · cases hj

/-- If all portions are of calls that are alike, those after which the checkpoint was written are
one line for each input before its position, in order. What the others wrote is surplus. -/
theorem exists_surplus (h : Chained portions lines c)
    (halike : ∀ p ∈ portions, p.call.Alike call) : c ≤ call.inputs.length ∧
      textOf (portions.filter fun p => p.saved) =
        Journal.logText ((call.inputs.take c).map call.entry) ∧
      ∃ surplus, lines.Perm ((call.inputs.take c).map call.entry ++ surplus) ∧
        Journal.logText surplus = textOf (portions.filter fun p => !p.saved) := by
  induction h with
  | nil => exact ⟨Nat.zero_le _, rfl, [], .refl _, rfl⟩
  | @saved portions lines c last h hsize hlt ih =>
    obtain ⟨-, hsaved, surplus, hperm, hsurplus⟩ :=
      ih fun p hp => halike p (List.mem_append_left _ hp)
    have hlast : last.Alike call :=
      halike _ (List.mem_append_right _ (List.mem_singleton_self _))
    rw [← hlast.inputs, ← hlast.entry] at hsaved hperm ⊢
    refine ⟨?_, ?_, surplus, ?_, ?_⟩
    · rw [Call.length_batchAt]
      omega
    · rw [List.filter_append, textOf_append, hsaved, ← last.entries_take_append,
        Journal.logText_append]
      simp [textOf]
    · -- the batch goes before the surplus
      rw [← last.entries_take_append, List.append_assoc]
      refine (hperm.append_right _).trans ?_
      rw [List.append_assoc]
      exact List.perm_append_comm.append_left _
    · rw [List.filter_append, textOf_append, hsurplus]
      simp [textOf]
  | @lost portions lines c last h hsize hlt ih =>
    obtain ⟨hle, hsaved, surplus, hperm, hsurplus⟩ :=
      ih fun p hp => halike p (List.mem_append_left _ hp)
    refine ⟨hle, ?_, surplus ++ last.batchAt c, ?_, ?_⟩
    · rw [List.filter_append, textOf_append, hsaved]
      simp [textOf]
    · rw [← List.append_assoc]
      exact hperm.append_right _
    · rw [Journal.logText_append, hsurplus, List.filter_append, textOf_append]
      simp [textOf]

end Chained

end Campaign

end TapeMachine
