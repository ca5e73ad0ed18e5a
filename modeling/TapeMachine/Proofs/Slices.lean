import TapeMachine.Proofs.Endings
import TapeMachine.Sample

/-!
# Runs in slices

A run can get its steps in slices: first with one budget, then with a larger one on what the first
left, and so on. A budget is compared with the count of all steps so far, and every step that leaves
the run going is counted. So a slice makes up for what is missing to its budget, and no step is lost
or made twice where one slice ends and the next begins.

## Termination

* `runSlice` — each step that leaves the run going brings the count of steps nearer to the budget

## Main statements

* `stand_runSlice` — a slice is a run within its budget
* `calls_runSlice_le` — a slice tries no more steps than are missing to its budget
* `runSlice_followedBy` — a larger budget continues what a smaller one left
* `runSlices_append_singleton` — slices with growing budgets are one slice with the last of them
* `slices_compose` — the same together with what slices tell about runs to the end
-/

namespace TapeMachine

variable {p : Program} {c c' : Configuration} {budget budget' : Int}

/-! ## One slice -/

/-- What a slice of a run comes to, and how many steps it tries. -/
structure Slice where
  stand : Configuration × Status
  calls : Nat
  deriving DecidableEq

namespace Slice

/-- The slice with one more step tried before it. -/
def afterCall (s : Slice) : Slice := { s with calls := s.calls + 1 }

theorem stand_eq_of_running {s : Slice} (h : s.stand.2 = .running) :
    s.stand = (s.stand.1, .running) := Prod.ext rfl h

end Slice

/-- Tries steps, one after the other, while the count of steps is below the budget and the run is
going. -/
def runSlice (p : Program) (budget : Int) (c : Configuration) : Slice :=
  if (c.steps : Int) < budget then
    match _h : step p c with
    | (c', .running) => (runSlice p budget c').afterCall
    | ended => ⟨ended, 1⟩
  else ⟨(c, .running), 0⟩
termination_by (budget - c.steps).toNat
decreasing_by
  have hsteps := steps_of_step_running ‹step p c = (c', .running)›
  omega

theorem runSlice_of_le (h : budget ≤ c.steps) : runSlice p budget c = ⟨(c, .running), 0⟩ := by
  rw [runSlice, if_neg (by omega)]

theorem runSlice_of_running (hlt : (c.steps : Int) < budget) (hs : step p c = (c', .running)) :
    runSlice p budget c = (runSlice p budget c').afterCall := by
  rw [runSlice, if_pos hlt]
  split
  · next c'' hs' =>
    rw [hs] at hs'
    cases hs'
    rfl
  · next hne => exact absurd hs (hne c')

theorem runSlice_of_not_running (hlt : (c.steps : Int) < budget) (hs : (step p c).2 ≠ .running) :
    runSlice p budget c = ⟨step p c, 1⟩ := by
  rw [runSlice, if_pos hlt]
  split
  · next c'' hs' => exact absurd (by rw [hs']) hs
  · rfl

/-- What a slice can be: nothing, if the budget is used up; a step that ends the run; or a step that
leaves it going, and a slice from there. -/
theorem runSlice_induction {motive : Configuration → Prop} (budget : Int)
    (used : ∀ c : Configuration, budget ≤ c.steps → motive c)
    (ended : ∀ c : Configuration, (c.steps : Int) < budget → (step p c).2 ≠ .running → motive c)
    (going : ∀ c c' : Configuration, (c.steps : Int) < budget → step p c = (c', .running) →
      motive c' → motive c) (c : Configuration) : motive c := by
  fun_induction runSlice p budget c with
  | case1 c hlt c' hs ih => exact going c c' hlt hs ih
  | case2 c hlt hne => exact ended c hlt fun h => hne (step p c).1 (Prod.ext rfl h)
  | case3 c hle => exact used c (by omega)

/-- A slice is a run within its budget. -/
theorem stand_runSlice (p : Program) (budget : Int) (c : Configuration) :
    (runSlice p budget c).stand = runBounded p budget c := by
  unfold runBounded
  induction c using runSlice_induction (p := p) budget with
  | used c hle =>
    have hzero : (budget - c.steps).toNat = 0 := by omega
    rw [runSlice_of_le hle, hzero, runFor_zero]
  | ended c hlt hs =>
    obtain ⟨n, hn⟩ : ∃ n, (budget - c.steps).toNat = n + 1 := ⟨_, (Nat.succ_pred (by omega)).symm⟩
    rw [runSlice_of_not_running hlt hs, hn, runFor_succ_of_not_running n hs]
  | going c c' hlt hs ih =>
    have hsteps := steps_of_step_running hs
    have hn : (budget - c.steps).toNat = (budget - c'.steps).toNat + 1 := by omega
    rw [runSlice_of_running hlt hs, hn, runFor_succ_of_running _ hs, ← ih]
    rfl

/-- A slice tries no more steps than are missing to its budget. -/
theorem calls_runSlice_le (p : Program) (budget : Int) (c : Configuration) :
    ((runSlice p budget c).calls : Int) ≤ max 0 (budget - c.steps) := by
  induction c using runSlice_induction (p := p) budget with
  | used c hle =>
    rw [runSlice_of_le hle]
    exact le_max_left _ _
  | ended c hlt hs =>
    rw [runSlice_of_not_running hlt hs]
    simp only [Nat.cast_one]
    omega
  | going c c' hlt hs ih =>
    have hsteps := steps_of_step_running hs
    rw [runSlice_of_running hlt hs]
    simp only [Slice.afterCall, Nat.cast_add, Nat.cast_one]
    omega

/-! ## Slice after slice -/

namespace Slice

/-- The slice together with what comes after it if it leaves the run going. -/
def followedBy (first : Slice) (later : Configuration → Slice) : Slice :=
  match first.stand with
  | (c, .running) => ⟨(later c).stand, first.calls + (later c).calls⟩
  | _ => first

variable {first : Slice} {later : Configuration → Slice}

theorem followedBy_of_running (h : first.stand = (c, .running)) :
    first.followedBy later = ⟨(later c).stand, first.calls + (later c).calls⟩ := by
  unfold followedBy
  split
  · next c' hs =>
    rw [h] at hs
    cases hs
    rfl
  · next hne => exact absurd h (hne c)

theorem followedBy_of_not_running (h : first.stand.2 ≠ .running) :
    first.followedBy later = first := by
  unfold followedBy
  split
  · next hs => exact absurd (by rw [hs]) h
  · rfl

theorem followedBy_afterCall (first : Slice) (later : Configuration → Slice) :
    first.afterCall.followedBy later = (first.followedBy later).afterCall := by
  by_cases hs : first.stand.2 = .running
  · have hstand := stand_eq_of_running hs
    have hafter : first.afterCall.stand = (first.stand.1, .running) := hstand
    rw [followedBy_of_running hstand, followedBy_of_running hafter]
    simp only [afterCall, Nat.add_right_comm]
  · rw [followedBy_of_not_running hs]
    exact followedBy_of_not_running hs

end Slice

/-- Slices with budgets one after the other, each on what the one before left, until one of them
ends the run. -/
def runSlices (p : Program) : List Int → Configuration → Slice
  | [], c => ⟨(c, .running), 0⟩
  | budget :: rest, c => (runSlice p budget c).followedBy (runSlices p rest)

theorem runSlices_singleton (p : Program) (budget : Int) :
    runSlices p [budget] = runSlice p budget := by
  funext c
  rw [runSlices]
  by_cases hs : (runSlice p budget c).stand.2 = .running
  · have hstand := Slice.stand_eq_of_running hs
    rw [Slice.followedBy_of_running hstand, runSlices, ← hstand, Nat.add_zero]
  · rw [Slice.followedBy_of_not_running hs]

/-- A larger budget continues what a smaller one left. -/
theorem runSlice_followedBy (hle : budget ≤ budget') (c : Configuration) :
    (runSlice p budget c).followedBy (runSlice p budget') = runSlice p budget' c := by
  induction c using runSlice_induction (p := p) budget with
  | used c hused =>
    rw [runSlice_of_le hused, Slice.followedBy_of_running rfl, Nat.zero_add]
  | ended c hlt hs =>
    rw [runSlice_of_not_running hlt hs, runSlice_of_not_running (by omega) hs]
    exact Slice.followedBy_of_not_running hs
  | going c c' hlt hs ih =>
    rw [runSlice_of_running hlt hs, runSlice_of_running (by omega : (c.steps : Int) < budget') hs]
    rw [Slice.followedBy_afterCall, ih]

/-- Slices with growing budgets are one slice with the last of them: they come to the same, and try
as many steps together. -/
theorem runSlices_append_singleton {budgets : List Int} {last : Int}
    (h : (budgets ++ [last]).Pairwise (· ≤ ·)) :
    runSlices p (budgets ++ [last]) = runSlice p last := by
  induction budgets with
  | nil => exact runSlices_singleton p last
  | cons budget budgets ih =>
    rw [List.cons_append, List.pairwise_cons] at h
    funext c
    rw [List.cons_append, runSlices, ih h.2]
    exact runSlice_followedBy (h.1 last (by simp)) c

/-! ## Slices and whole runs -/

/-- A slice that ends the run ends it as following the run to its end does. -/
theorem run_of_runSlice (h : (runSlice p budget c).stand.2 ≠ .running) :
    run p c = (runSlice p budget c).stand := by
  rw [stand_runSlice, runBounded] at h ⊢
  exact run_of_ended h

/-- Some slice ends a run that ends. -/
theorem exists_runSlice_of_run (h : (run p c).2 ≠ .running) :
    ∃ budget, (runSlice p budget c).stand.2 ≠ .running := by
  rw [run_eq_runFor] at h
  refine ⟨c.steps + spanTotal (spanCount p c) 1, ?_⟩
  rw [stand_runSlice, runBounded, add_sub_cancel_left, Int.toNat_natCast]
  exact h

/-- Let a run stand anywhere. Slices with budgets that do not decrease come to the same as one slice
with the last budget, and try as many steps together. A slice comes to what a run within its budget
comes to, and tries no more steps than are missing to it. The run ends exactly if some slice ends
it, and ends as that slice does. -/
theorem slices_compose (m : Machine) (c : Configuration) :
    (∀ (budgets : List Int) (last : Int), (budgets ++ [last]).Pairwise (· ≤ ·) →
      runSlices m.program (budgets ++ [last]) c = runSlice m.program last c) ∧
    (∀ budget : Int, (runSlice m.program budget c).stand = runBounded m.program budget c ∧
      ((runSlice m.program budget c).calls : Int) ≤ max 0 (budget - c.steps)) ∧
    ((run m.program c).2 ≠ .running ↔ ∃ budget, (runSlice m.program budget c).stand.2 ≠ .running) ∧
    ∀ budget, (runSlice m.program budget c).stand.2 ≠ .running →
      (runSlice m.program budget c).stand = run m.program c := by
  refine ⟨?_, ?_, ?_, ?_⟩
  · intro budgets last h
    rw [runSlices_append_singleton h]
  · intro budget
    exact ⟨stand_runSlice m.program budget c, calls_runSlice_le m.program budget c⟩
  · constructor
    · exact exists_runSlice_of_run
    · rintro ⟨budget, h⟩
      rw [run_of_runSlice h]
      exact h
  · intro budget h
    exact (run_of_runSlice h).symm

/-- The sample program on two letters in eight cells accepts within nine steps. -/
def acceptsWithinNine (m : Machine) : Bool :=
  match m.begin "aa" 8 0 with
  | .ok c₀ => Result.ofRun? (runBounded m.program 9 c₀) = some ⟨"_aa_____", 3, true, 4⟩
  | .error _ => false

/-- So it does in slices. The first has nothing to do, the next two do one step and none, and the
one after these does two. -/
theorem slices_compose_evens : ∃ m c₀,
    Machine.compile Sample.evens (Alphabet.itemsOf Sample.evensLetters) = .ok m ∧
      m.begin "aa" 8 0 = .ok c₀ ∧
      ([-5, 1, 1, 3] ++ [9] : List Int).Pairwise (· ≤ ·) ∧
      (runSlice m.program 9 c₀).stand.2 ≠ .running ∧
      (runSlices m.program ([-5, 1, 1, 3] ++ [9]) c₀).stand = run m.program c₀ ∧
      Result.ofRun? (run m.program c₀) = some ⟨"_aa_____", 3, true, 4⟩ := by
  obtain ⟨m, hm, htest⟩ : ∃ m,
      Machine.compile Sample.evens (Alphabet.itemsOf Sample.evensLetters) = .ok m ∧
        acceptsWithinNine m = true := Sample.exists_machine_with (by decide +kernel)
  unfold acceptsWithinNine at htest
  split at htest
  · next c₀ hb =>
    have hresult := of_decide_eq_true htest
    obtain ⟨hslices, hslice, -, hrun⟩ := slices_compose m c₀
    rw [← (hslice 9).1] at hresult
    have hgrow : ([-5, 1, 1, 3] ++ [9] : List Int).Pairwise (· ≤ ·) := by decide
    have hend : (runSlice m.program 9 c₀).stand.2 ≠ .running := by
      intro h
      rw [Slice.stand_eq_of_running h] at hresult
      cases hresult
    rw [hrun 9 hend] at hresult
    refine ⟨m, c₀, hm, hb, hgrow, hend, ?_, hresult⟩
    rw [hslices _ _ hgrow, hrun 9 hend]
  · cases htest

end TapeMachine
