import TapeMachine.Proofs.Traces

/-!
# Failures are final

A configuration can be stepped again and again, whatever came of the steps before. A step that fails
changes nothing, unless it is the transition itself that leaves the tape: then the symbol is written,
the head moved and the step counted. Either way there is no transition from where it stopped, so every
later step fails too and changes nothing at all.

The head is shown in the message of a failure. A run may begin with a head so far out that it cannot
be shown; then its steps come to the error of showing it.

## Main statements

* `Machine.Called.step`, `Machine.Called.afterCalls` — what every call of a step keeps
* `Footprint.of_step` — what a failing step leaves behind, and what a watcher is shown of it
* `Stuck.of_choose_error` — without a transition nothing ever happens again
* `Machine.failures_are_final` — all this of every configuration that calls of steps lead to
-/

namespace TapeMachine

variable {p : Program} {c c' : Configuration} {fault : Fault}

/-! ## Calls of steps -/

/-- The configuration after `n` calls of a step, whatever came of each of them. -/
def afterCalls (p : Program) : Nat → Configuration → Configuration
  | 0, c => c
  | n + 1, c => afterCalls p n (step p c).1

theorem afterCalls_of_fixed (h : (step p c).1 = c) (n : Nat) : afterCalls p n c = c := by
  induction n with
  | zero => rfl
  | succ n ih =>
    show afterCalls p n (step p c).1 = c
    rw [h, ih]

/-! ## What a failing step leaves behind -/

/-- A step from a configuration fails, leaves another behind, and shows a watcher what it does. -/
inductive Footprint (c : Configuration) : Fault → Configuration → List Sight → Prop where
  /-- The head is off the tape: nothing changes and nothing is shown. -/
  | outside (h : c.inBounds = false) : Footprint c .outside c []
  /-- There is no rule for the scanned symbol: nothing changes and nothing is shown. -/
  | noTransition {cell : Symbol} (hcell : c.scanned? = some cell)
      (h : c.state.lookup cell = none) : Footprint c (.noTransition cell) c []
  /-- The transition for the scanned symbol is shown and followed over an end of the tape: it has
  written and moved the head, the step is counted, and the state is the old one. -/
  | fellOff {cell : Symbol} {t : Transition} {c' : Configuration}
      (hcell : c.scanned? = some cell) (ht : c.state.lookup cell = some t)
      (tape : c'.tape =
        if t.writes then c.tape.setIfInBounds c.head.toNat t.write else c.tape)
      (moved : c'.head = c.head + t.move.delta)
      (off : c'.head = -1 ∨ c'.head = c'.tape.size)
      (state : c'.state = c.state) (steps : c'.steps = c.steps + 1) :
      Footprint c (.fellOff cell t) c' [⟨c, cell, t⟩]

/-- A move takes the head to the next cell at most. -/
theorem Move.delta_near (move : Move) : -1 ≤ move.delta ∧ move.delta ≤ 1 := by
  cases move with
  | left => exact ⟨by decide, by decide⟩
  | right => exact ⟨by decide, by decide⟩
  | stay => exact ⟨by decide, by decide⟩

/-- From a cell of the tape, a transition moves the head to a cell or just off the tape. -/
theorem Configuration.head_act_near {t : Transition} (h : c.inBounds = true) :
    -1 ≤ (c.act t).head ∧ (c.act t).head ≤ c.tape.size := by
  obtain ⟨h₀, hlt⟩ := inBounds_iff.mp h
  obtain ⟨hleft, hright⟩ := t.move.delta_near
  have hhead : (c.act t).head = c.head + t.move.delta := rfl
  omega

/-- A failing step leaves its footprint, unless its transition goes to a state that does not exist.
A watcher changes nothing about it. -/
theorem Footprint.of_step (h : step p c = (c', .failed fault))
    (hstate : ∀ name, fault ≠ .missingState name) : ∃ seen, Footprint c fault c' seen ∧
      ∀ {σ : Type} (see : σ → Sight → σ) (watcher : σ),
        watchedStep see p c watcher = ((c', .failed fault), seen.foldl see watcher) := by
  cases hc : c.choose with
  | error reason =>
    rw [step_of_choose_error hc] at h
    cases h
    refine ⟨[], ?_, fun see watcher => by simp only [watchedStep, hc, List.foldl_nil]⟩
    rcases Configuration.choose_eq_error.mp hc with ⟨hnone, rfl⟩ | ⟨cell, hcell, hnone, rfl⟩
    · exact .outside (Configuration.scanned?_eq_none.mp hnone)
    · exact .noTransition hcell hnone
  | ok chosen =>
    obtain ⟨cell, t⟩ := chosen
    have hon := (Configuration.of_choose hc).1
    obtain ⟨hcell, ht⟩ := Configuration.choose_eq_ok.mp hc
    refine ⟨[⟨c, cell, t⟩], ?_, fun see watcher => ?_⟩
    · rcases of_step_failed h with ⟨hnone, -⟩ | ⟨cell', t', hc', rfl, hfault⟩
      · rw [hc] at hnone
        cases hnone
      · rw [hc] at hc'
        cases hc'
        rcases hfault with ⟨hoff, rfl⟩ | ⟨-, -, rfl⟩
        · refine .fellOff hcell ht rfl rfl ?_ rfl rfl
          obtain ⟨hleft, hright⟩ := Configuration.head_act_near (t := t) hon
          have hsize := Configuration.size_act t c
          have hout : ¬(0 ≤ (c.act t).head ∧ (c.act t).head < (c.act t).tape.size) := by
            rw [← Configuration.inBounds_iff, hoff]
            decide
          omega
        · exact absurd rfl (hstate _)
    · rw [step_of_choose_ok hc] at h
      simp only [watchedStep, hc, h, List.foldl_cons, List.foldl_nil]

/-! ## Where nothing happens any more -/

/-- Every step from a configuration fails for the same reason, changes nothing, and shows a watcher
nothing. -/
structure Stuck (p : Program) (c : Configuration) (reason : Fault) : Prop where
  fails : step p c = (c, .failed reason)
  calls : ∀ n, afterCalls p n c = c
  silent : ∀ {σ : Type} (see : σ → Sight → σ) (watcher : σ),
    watchedStep see p c watcher = ((c, .failed reason), watcher)
  runs : ∀ n, runFor p (n + 1) c = (c, .failed reason)

theorem Stuck.of_choose_error (h : c.choose = .error fault) : Stuck p c fault := by
  have hs : step p c = (c, .failed fault) := step_of_choose_error h
  constructor
  case fails => exact hs
  case calls => exact afterCalls_of_fixed (by rw [hs])
  case silent =>
    intro σ see watcher
    simp only [watchedStep, h]
  case runs =>
    intro n
    rw [runFor_succ_of_not_running n (by simp [hs]), hs]

/-- Off the tape there is no transition. -/
theorem Stuck.of_outside (h : c.inBounds = false) : Stuck p c .outside :=
  .of_choose_error (Configuration.choose_eq_error.mpr
    (Or.inl ⟨Configuration.scanned?_eq_none.mpr h, rfl⟩))

/-- After a step that failed there is no transition: for the same reason, or because the head is now
off the tape. -/
theorem Footprint.exists_stuck {seen : List Sight} (h : Footprint c fault c' seen) :
    ∃ reason, Stuck p c' reason ∧ (reason = fault ∨ reason = .outside) := by
  cases h with
  | outside hout => exact ⟨_, .of_outside hout, Or.inl rfl⟩
  | noTransition hcell hnone =>
    refine ⟨_, .of_choose_error ?_, Or.inl rfl⟩
    exact Configuration.choose_eq_error.mpr (Or.inr ⟨_, hcell, hnone, rfl⟩)
  | fellOff hcell ht tape moved off state steps =>
    refine ⟨_, .of_outside ?_, Or.inr rfl⟩
    rw [Bool.eq_false_iff, ne_eq, Configuration.inBounds_iff]
    omega

namespace Machine

variable {m : Machine} {c₀ : Configuration} {contents : String} {size head : Int}

/-! ## What every call keeps -/

/-- What holds after calls of steps, however they ended: the state is one that is listed, the tape has
its size, and the head is where it was at first or no farther than just off the tape. -/
structure Called (m : Machine) (c₀ c : Configuration) : Prop where
  state : c.state ∈ m.reachable
  size : c.tape.size = c₀.tape.size
  head : c.head = c₀.head ∨ -1 ≤ c.head ∧ c.head ≤ c₀.tape.size

/-- A listed state goes to states that exist. -/
theorem ne_missingState (hmem : c.state ∈ m.reachable) (h : step m.program c = (c', .failed fault))
    (name : String) : fault ≠ .missingState name := by
  have hkeeps : m.Keeps c c := .refl hmem
  rintro rfl
  rcases hkeeps.fault h with ⟨hf, -⟩ | ⟨cell, hf, -⟩ | ⟨cell, t, hf⟩ <;> cases hf

theorem Called.refl (h : c₀.state ∈ m.reachable) : m.Called c₀ c₀ := ⟨h, rfl, Or.inl rfl⟩

/-- A call of a step keeps this, whatever comes of it. -/
theorem Called.step (h : m.Called c₀ c) : m.Called c₀ (TapeMachine.step m.program c).1 := by
  cases hc : c.choose with
  | error reason =>
    rw [step_of_choose_error hc]
    exact h
  | ok chosen =>
    obtain ⟨cell, t⟩ := chosen
    obtain ⟨hon, e, he, rfl⟩ := Configuration.of_choose hc
    have hsize : (c.act e.2).tape.size = c₀.tape.size :=
      (Configuration.size_act e.2 c).trans h.size
    have hhead : -1 ≤ (c.act e.2).head ∧ (c.act e.2).head ≤ c₀.tape.size := by
      rw [← h.size]
      exact Configuration.head_act_near hon
    have hstays : m.Called c₀ (c.act e.2) := ⟨h.state, hsize, Or.inr hhead⟩
    rw [step_of_choose_ok hc]
    rcases follow_cases m.program cell e.2 c with ⟨-, hf⟩ | ⟨-, -, hf⟩ | ⟨-, -, -, hf⟩ |
      ⟨-, hh, s, hs, hf⟩
    all_goals rw [hf]
    · exact hstays
    · exact hstays
    · exact hstays
    · obtain ⟨s', hlisted, hs'⟩ := exists_next h.state he hh
      rw [hs, Option.some.injEq] at hs'
      exact ⟨hs' ▸ hlisted, hsize, Or.inr hhead⟩

theorem Called.afterCalls (h : m.Called c₀ c) (n : Nat) :
    m.Called c₀ (TapeMachine.afterCalls m.program n c) := by
  induction n generalizing c with
  | zero => exact h
  | succ n ih => exact ih h.step

theorem Called.of_prepare [Host] (hb : m.prepare contents size head = .ok c₀) : m.Called c₀ c₀ := by
  obtain ⟨tape, -, rfl⟩ := begin_eq_ok.mp (prepare_eq_ok.mp hb).2
  exact .refl start_mem_reachable

theorem size_of_prepare [Host] (hb : m.prepare contents size head = .ok c₀) :
    c₀.tape.size ≤ Host.mostCells := by
  obtain ⟨hmost, hb⟩ := prepare_eq_ok.mp hb
  obtain ⟨tape, ht, rfl⟩ := begin_eq_ok.mp hb
  have hsize := Tape.size_of_create ht
  show tape.size ≤ Host.mostCells
  omega

theorem head_of_prepare [Host] (hb : m.prepare contents size head = .ok c₀) : c₀.head = head := by
  obtain ⟨tape, -, rfl⟩ := begin_eq_ok.mp (prepare_eq_ok.mp hb).2
  rfl

/-! ## What can be shown -/

/-- A head that could be shown at first can be shown after every call. -/
theorem Called.markFault? [Host] (h : m.Called c₀ c) (hsize : c₀.tape.size ≤ Host.mostCells)
    (hfirst : Tape.markFault? c₀.head = none) : Tape.markFault? c.head = none := by
  rcases h.head with hsame | ⟨hleft, hright⟩
  · rwa [hsame]
  · exact Tape.markFault?_of_near hleft (by omega)

/-- A head that cannot be shown is off every tape that memory holds. -/
theorem inBounds_of_markFault? [Host] {e : Tape.MarkFault} (hsize : c.tape.size ≤ Host.mostCells)
    (h : Tape.markFault? c.head = some e) : c.inBounds = false := by
  rw [Bool.eq_false_iff, ne_eq, Configuration.inBounds_iff]
  rintro ⟨h₀, hlt⟩
  rw [Tape.markFault?_of_near (by omega) (by omega)] at h
  cases h

/-- What is raised for a fault: its message, or else the error of showing the head. -/
theorem report_of_markFault? [Host] (hstate : ∀ name, fault ≠ .missingState name) :
    fault.report c = match Tape.markFault? c.head with
      | none => .ok (fault.message c)
      | some e => .error e := by
  cases fault with
  | missingState name => exact absurd rfl (hstate name)
  | outside => cases h : Tape.markFault? c.head <;> simp only [Fault.report, h]
  | noTransition cell => cases h : Tape.markFault? c.head <;> simp only [Fault.report, h]
  | fellOff cell t => cases h : Tape.markFault? c.head <;> simp only [Fault.report, h]

/-- Failures of steps are final. A run begins on a tape that memory holds, with any contents and any
head, and any number of steps are called, whatever came of them; then one fails. It leaves its
footprint, which says what has changed and what a watcher was shown, and from then on every call fails
for one reason, the same or that the head is off the tape, changes nothing, and shows a watcher
nothing. What is raised is the message each time if the first head can be shown. If it cannot, then
nothing ever changed, and what is raised each time is the error of showing it. -/
theorem failures_are_final [Host] (hb : m.prepare contents size head = .ok c₀) {n : Nat}
    (hs : step m.program (afterCalls m.program n c₀) = (c', .failed fault)) :
    ∃ seen later, Footprint (afterCalls m.program n c₀) fault c' seen ∧
      (∀ {σ : Type} (see : σ → Sight → σ) (watcher : σ),
        watchedStep see m.program (afterCalls m.program n c₀) watcher =
          ((c', .failed fault), seen.foldl see watcher)) ∧
      Stuck m.program c' later ∧ (later = fault ∨ later = .outside) ∧
      (Tape.markFault? head = none →
        fault.report c' = .ok (fault.message c') ∧ later.report c' = .ok (later.message c')) ∧
      ∀ e, Tape.markFault? head = some e →
        c' = c₀ ∧ fault.report c' = .error e ∧ later.report c' = .error e := by
  have hsize := size_of_prepare hb
  have hhead := head_of_prepare hb
  have hcalled : m.Called c₀ (afterCalls m.program n c₀) := (Called.of_prepare hb).afterCalls n
  have hcalled' : m.Called c₀ c' := by
    have h := hcalled.step
    rwa [hs] at h
  have hstate := ne_missingState hcalled.state hs
  obtain ⟨seen, hprint, hwatched⟩ := Footprint.of_step hs hstate
  obtain ⟨later, hstuck, hlater⟩ := hprint.exists_stuck
  have hlater' : ∀ name, later ≠ .missingState name := by
    rintro name rfl
    rcases hlater with h | h
    · exact hstate name h.symm
    · cases h
  refine ⟨seen, later, hprint, hwatched, hstuck, hlater, ?_, ?_⟩
  · intro hnone
    have hmark := hcalled'.markFault? hsize (by rwa [hhead])
    simp only [report_of_markFault? hstate, report_of_markFault? hlater', hmark, and_self]
  · intro e hsome
    have hmark : Tape.markFault? c₀.head = some e := by rwa [hhead]
    -- off the tape from the first, so that no call ever did anything
    have hstart := Stuck.of_outside (p := m.program) (inBounds_of_markFault? hsize hmark)
    have hsame : c' = c₀ := by
      rw [hstart.calls, hstart.fails] at hs
      exact congrArg Prod.fst hs.symm
    rw [hsame]
    simp only [report_of_markFault? hstate, report_of_markFault? hlater', hmark, and_self]

section

attribute [local instance] Host.usual

/-- The sample program on two letters in three cells goes off the right end with its third step. -/
theorem failures_are_final_evens : ∃ m c₀ c' fault later,
    compile Sample.evens (Alphabet.itemsOf Sample.evensLetters) = .ok m ∧
      m.prepare "aa" 3 0 = .ok c₀ ∧
      step m.program (afterCalls m.program 2 c₀) = (c', .failed fault) ∧
      fault = .fellOff "a" ⟨"E", "*", .right, 5⟩ ∧ Stuck m.program c' later := by
  let first : Machine → Configuration := fun m => ⟨#["_", "a", "a"], 0, m.start, 0⟩
  let test : Machine → Bool := fun m =>
    (step m.program (afterCalls m.program 2 (first m))).2 =
      .failed (.fellOff "a" ⟨"E", "*", .right, 5⟩)
  have htest : ((compile Sample.evens (Alphabet.itemsOf Sample.evensLetters)).toOption.any test) =
      true := by decide +kernel
  obtain ⟨m, hm, ht⟩ := Sample.exists_machine_with htest
  have hb : m.prepare "aa" 3 0 = .ok (first m) :=
    prepare_eq_ok.mpr ⟨by decide, begin_eq_ok.mpr ⟨_, by rfl, rfl⟩⟩
  have hs : step m.program (afterCalls m.program 2 (first m)) =
      (_, .failed (.fellOff "a" ⟨"E", "*", .right, 5⟩)) :=
    Prod.ext rfl (of_decide_eq_true ht)
  obtain ⟨-, later, -, -, hstuck, -⟩ := failures_are_final hb hs
  exact ⟨m, _, _, _, later, hm, hb, hs, rfl, hstuck⟩

/-- With the head farther out than any text is long, a run of any machine begins on eight cells, and
every step comes to the error of showing the head. -/
theorem begins_far (m : Machine) : ∃ c₀, m.prepare "" 8 (1 <<< 63 : Nat) = .ok c₀ ∧
    Stuck m.program c₀ .outside ∧ Fault.outside.report c₀ = .error .beyondText := by
  refine ⟨⟨#["_", "_", "_", "_", "_", "_", "_", "_"], (1 <<< 63 : Nat), m.start, 0⟩, ?_,
    .of_outside (by rfl), by rfl⟩
  exact prepare_eq_ok.mpr ⟨by decide, begin_eq_ok.mpr ⟨_, by rfl, rfl⟩⟩

/-- With the head farther out than any text is long, each step of the sample program comes to the
error of showing it and not to the message of its failure. -/
theorem failure_without_message : ∃ m c₀,
    compile Sample.evens (Alphabet.itemsOf Sample.evensLetters) = .ok m ∧
      m.prepare "" 8 (1 <<< 63 : Nat) = .ok c₀ ∧
      ∀ n, step m.program (afterCalls m.program n c₀) = (c₀, .failed .outside) ∧
        Fault.outside.report c₀ = .error .beyondText := by
  obtain ⟨m, hm⟩ := Sample.exists_machine Sample.evens_valid
  obtain ⟨c₀, hb, hstuck, hreport⟩ := m.begins_far
  refine ⟨m, c₀, hm, hb, fun n => ⟨?_, hreport⟩⟩
  rw [hstuck.calls, hstuck.fails]

end

end Machine

end TapeMachine
