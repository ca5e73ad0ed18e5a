import TapeMachine.Step

/-!
# Runs

A run repeats steps until one ends it. It can be given a number of steps, or be followed to its end.

## Termination

`run` follows a machine that need not halt. A configuration without its count of steps is one of
finitely many, so a run that has taken as many steps as there are configurations never ends. `run`
tries spans of one, two, four, … steps and gives up after `spanCount` of them, which cover all
configurations. A run that is still going then never ends.

## Main statements

* `runFor_add` — a run of `m + n` steps is a run of `m` steps, continued
* `runFor_of_not_running` — more steps change nothing about a run that has ended
* `steps_of_runFor_running` — a run that is still going has taken all its steps
* `exists_last_step` — a run that has ended was going on before its last step
* `runSpans_eq_runFor`, `spanTotal_add` — spans of doubling length are one run, and how long it is
-/

namespace TapeMachine

/-! ## Runs of a given length -/

/-- At most `n` steps, as many as it takes to end the run. -/
def runFor (p : Program) : Nat → Configuration → Configuration × Status
  | 0, c => (c, .running)
  | n + 1, c =>
    match step p c with
    | (c', .running) => runFor p n c'
    | ended => ended

@[simp] theorem runFor_zero (p : Program) (c : Configuration) : runFor p 0 c = (c, .running) := rfl

theorem runFor_succ_of_running {p : Program} {c c' : Configuration} (n : Nat)
    (h : step p c = (c', .running)) : runFor p (n + 1) c = runFor p n c' := by
  simp [runFor, h]

theorem runFor_succ_of_not_running {p : Program} {c : Configuration} (n : Nat)
    (h : (step p c).2 ≠ .running) : runFor p (n + 1) c = step p c := by
  unfold runFor
  split
  · rename_i c' hc
    exact absurd (by rw [hc]) h
  · rfl

/-- A run of `m + n` steps is a run of `m` steps, continued if it is still going. -/
theorem runFor_add (p : Program) (m n : Nat) (c : Configuration) :
    runFor p (m + n) c = match runFor p m c with
      | (c', .running) => runFor p n c'
      | ended => ended := by
  induction m generalizing c with
  | zero => simp
  | succ m ih =>
    rw [Nat.succ_add]
    by_cases h : (step p c).2 = .running
    · have hs : step p c = ((step p c).1, .running) := by rw [← h]
      rw [runFor_succ_of_running _ hs, runFor_succ_of_running _ hs, ih]
    · rw [runFor_succ_of_not_running _ h, runFor_succ_of_not_running _ h]
      split
      · rename_i hs
        exact absurd (by rw [hs]) h
      · rfl

theorem runFor_of_not_running {p : Program} {m : Nat} {c : Configuration} (n : Nat)
    (h : (runFor p m c).2 ≠ .running) : runFor p (m + n) c = runFor p m c := by
  rw [runFor_add]
  split
  · rename_i hs
    exact absurd (by rw [hs]) h
  · rfl

theorem steps_of_runFor_running {p : Program} : ∀ {n : Nat} {c c' : Configuration},
    runFor p n c = (c', .running) → c'.steps = c.steps + n
  | 0, c, c', h => by simp at h; simp [h]
  | n + 1, c, c', h => by
    by_cases hs : (step p c).2 = .running
    · have he : step p c = ((step p c).1, .running) := by rw [← hs]
      rw [runFor_succ_of_running _ he] at h
      rw [steps_of_runFor_running h, steps_of_step_running he]
      omega
    · rw [runFor_succ_of_not_running _ hs] at h
      exact absurd (by rw [h]) hs

theorem exists_last_step {p : Program} : ∀ {n : Nat} {c c' : Configuration} {ending : Status},
    runFor p n c = (c', ending) → ending ≠ .running →
      ∃ m last, m < n ∧ runFor p m c = (last, .running) ∧ step p last = (c', ending)
  | 0, c, c', ending, h, he => by
    cases h
    exact absurd rfl he
  | n + 1, c, c', ending, h, he => by
    by_cases hs : (step p c).2 = .running
    · have hc : step p c = ((step p c).1, .running) := by rw [← hs]
      rw [runFor_succ_of_running _ hc] at h
      obtain ⟨m, last, hm, hr, hl⟩ := exists_last_step h he
      exact ⟨m + 1, last, by omega, by rw [runFor_succ_of_running _ hc, hr], hl⟩
    · rw [runFor_succ_of_not_running _ hs] at h
      exact ⟨0, c, by omega, rfl, h⟩

/-- Steps until the count of steps reaches a budget. -/
def runBounded (p : Program) (budget : Int) (c : Configuration) : Configuration × Status :=
  runFor p (budget - c.steps).toNat c

/-! ## Runs to the end -/

/-- Spans of `span`, `2 · span`, `4 · span`, … steps, `count` of them at most. -/
def runSpans (p : Program) : (count span : Nat) → Configuration → Configuration × Status
  | 0, _, c => (c, .running)
  | count + 1, span, c =>
    match runFor p span c with
    | (c', .running) => runSpans p count (2 * span) c'
    | ended => ended

/-- The steps of `count` spans together. -/
def spanTotal : (count span : Nat) → Nat
  | 0, _ => 0
  | count + 1, span => span + spanTotal count (2 * span)

/-- A number of spans that covers all configurations of a run. A cell holds one of the `n` symbols
that were on the tape or one of those that the rules write; with `g` of these together and `s` states
there are at most `s · n · g^n` configurations, and every factor is below two to its length in
binary. -/
def spanCount (p : Program) (c : Configuration) : Nat :=
  let binaryLength (n : Nat) := n.log2 + 1
  binaryLength (p.states.length + 1) + binaryLength c.tape.size +
    c.tape.size * binaryLength (c.tape.size + p.ruleCount) + 1

/-- Follows a run to its end; the run never ends if it is still going. -/
def run (p : Program) (c : Configuration) : Configuration × Status := runSpans p (spanCount p c) 1 c

theorem runSpans_eq_runFor (p : Program) (count span : Nat) (c : Configuration) :
    runSpans p count span c = runFor p (spanTotal count span) c := by
  induction count generalizing span c with
  | zero => simp [runSpans, spanTotal]
  | succ count ih =>
    rw [runSpans, spanTotal, runFor_add]
    split
    · exact ih _ _
    · rfl

theorem spanTotal_add (count span : Nat) : spanTotal count span + span = span <<< count := by
  induction count generalizing span with
  | zero => simp [spanTotal]
  | succ count ih =>
    have h : span <<< (count + 1) = (2 * span) <<< count := rfl
    rw [spanTotal, h, ← ih (2 * span)]
    omega

/-! ## What a watcher sees -/

/-- What a watcher notes of each transition before it is followed, for at most `n` steps. -/
def trace {α : Type} (view : Configuration → Symbol → Transition → α) (p : Program) :
    Nat → Configuration → List α
  | 0, _ => []
  | n + 1, c =>
    match c.choose with
    | .error _ => []
    | .ok (cell, t) =>
      view c cell t :: match follow p cell t c with
        | (c', .running) => trace view p n c'
        | _ => []

section

variable {α : Type} {view : Configuration → Symbol → Transition → α} {p : Program}
  {c c' : Configuration} {cell : Symbol} {t : Transition}

/-- Without a transition there is nothing to note. -/
theorem trace_of_choose_error {fault : Fault} (n : Nat) (h : c.choose = .error fault) :
    trace view p n c = [] := by
  cases n with
  | zero => rfl
  | succ n => simp only [trace, h]

/-- A transition is noted, and then what comes after it. -/
theorem trace_of_running (n : Nat) (h : c.choose = .ok (cell, t))
    (hs : step p c = (c', .running)) :
    trace view p (n + 1) c = view c cell t :: trace view p n c' := by
  rw [step_of_choose_ok h] at hs
  simp only [trace, h, hs]

theorem trace_of_not_running (n : Nat) (h : c.choose = .ok (cell, t))
    (hs : (step p c).2 ≠ .running) : trace view p (n + 1) c = [view c cell t] := by
  rw [step_of_choose_ok h] at hs
  simp only [trace, h]
  split
  · next hf =>
    rw [hf] at hs
    exact absurd rfl hs
  · rfl

end

/-- What a watcher notes of a run that started and ended in the given configurations. -/
def traceBetween {α : Type} (view : Configuration → Symbol → Transition → α) (p : Program)
    (start final : Configuration) : List α := trace view p (final.steps - start.steps) start

end TapeMachine
