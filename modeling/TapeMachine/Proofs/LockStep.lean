import TapeMachine.Evaluation

/-!
# Programs in lock-step

Two programs run in lock-step if their states are related so that related states have one name, do
the same for every symbol, and go to related states. Then runs from related configurations make the
same steps and end alike. All that may differ are the lines on which the rules stand; `unplaced`
takes these out of a status, and no message tells them.

## Main statements

* `InLockStep.step`, `InLockStep.runFor` — a step keeps configurations paired, and so does a run
* `InLockStep.trace` — a watcher sees the same
* `Outcome.ofRun_congr`, `raised?_congr` — runs that end alike have the same outcome and raise the same
* `Machine.runsLike_of_inLockStep` — machines in lock-step run alike on every input
-/

namespace TapeMachine

/-! ## Places left out -/

/-- The fault without the line of the transition. -/
def Fault.unplaced : Fault → Fault
  | fellOff cell t => fellOff cell { t with line := 0 }
  | fault => fault

/-- The status without the line of a transition. -/
def Status.unplaced : Status → Status
  | failed fault => failed fault.unplaced
  | status => status

theorem Status.unplaced_eq_running {s : Status} : s.unplaced = .running ↔ s = .running := by
  cases s <;> simp [unplaced]

/-- What can be seen of a configuration: the tape, the head, the name of the state and the count of
steps. -/
def Configuration.view (c : Configuration) : Tape × Int × String × Nat :=
  (c.tape, c.head, c.state.name, c.steps)

theorem Fault.message_unplaced (fault : Fault) (c : Configuration) :
    fault.unplaced.message c = fault.message c := by cases fault <;> rfl

/-- A message tells only what can be seen. -/
theorem Fault.message_congr {fault : Fault} {c c' : Configuration} (h : c.view = c'.view) :
    fault.message c = fault.message c' := by
  simp only [Configuration.view, Prod.mk.injEq] at h
  obtain ⟨ht, hh, hn, -⟩ := h
  cases fault <;> simp only [message, Configuration.render, State.ruleText, Rule.text, ht, hh, hn]

/-- What is raised for a fault tells only what can be seen. -/
theorem Fault.report_congr [Host] {fault : Fault} {c c' : Configuration} (h : c.view = c'.view) :
    fault.report c = fault.report c' := by
  have hmessage : fault.message c = fault.message c' := message_congr h
  simp only [Configuration.view, Prod.mk.injEq] at h
  obtain ⟨-, hhead, -, -⟩ := h
  unfold report
  rw [hhead, hmessage]

theorem Fault.report_unplaced [Host] (fault : Fault) (c : Configuration) :
    fault.unplaced.report c = fault.report c := by
  unfold report
  rw [message_unplaced]
  cases Tape.markFault? c.head <;> cases fault <;> rfl

/-- What is raised for a run that failed: its message, or the error of showing the head. -/
def raised? [Host] : Configuration × Status → Option (Except Tape.MarkFault String)
  | (c, .failed fault) => some (fault.report c)
  | _ => none

theorem raised?_unplaced [Host] (c : Configuration) (s : Status) :
    raised? (c, s.unplaced) = raised? (c, s) := by
  cases s with
  | failed fault => exact congrArg some (fault.report_unplaced c)
  | running => rfl
  | halted accepted => rfl

theorem raised?_view [Host] {c c' : Configuration} (s : Status) (h : c.view = c'.view) :
    raised? (c, s) = raised? (c', s) := by
  cases s with
  | failed fault => exact congrArg some (Fault.report_congr h)
  | running => rfl
  | halted accepted => rfl

/-- Runs that end alike raise the same. -/
theorem raised?_congr [Host] {r r' : Configuration × Status} (hv : r.1.view = r'.1.view)
    (hs : r.2.unplaced = r'.2.unplaced) : raised? r = raised? r' := by
  rw [← raised?_unplaced r.1 r.2, hs, raised?_view _ hv, raised?_unplaced]

/-- Runs that end alike have the same outcome. -/
theorem Outcome.ofRun_congr {r r' : Configuration × Status} (hv : r.1.view = r'.1.view)
    (hs : r.2.unplaced = r'.2.unplaced) : ofRun r = ofRun r' := by
  obtain ⟨c, s⟩ := r
  obtain ⟨c', s'⟩ := r'
  have hview := hv
  simp only [Configuration.view, Prod.mk.injEq] at hview
  obtain ⟨ht, hh, -, hn⟩ := hview
  cases s with
  | running =>
    cases s' with
    | running => simp only [ofRun, ht, hh, hn]
    | halted b => cases hs
    | failed f => cases hs
  | halted a =>
    cases s' with
    | running => cases hs
    | halted b =>
      cases hs
      simp only [ofRun, Result.ofFinal, ht, hh, hn]
    | failed f => cases hs
  | failed f =>
    cases s' with
    | running => cases hs
    | halted b => cases hs
    | failed f' =>
      have hf : f.unplaced = f'.unplaced := by
        simpa only [Status.unplaced, Status.failed.injEq] using hs
      simp only [ofRun]
      rw [← f.message_unplaced, hf, f'.message_unplaced, Fault.message_congr hv, hn]

/-! ## Related states and configurations -/

/-- Under a relation of states, two programs do the same. -/
structure InLockStep (p q : Program) (R : State → State → Prop) : Prop where
  name {s s' : State} : R s s' → s.name = s'.name
  lookup {s s' : State} : R s s' → ∀ cell,
    (s.lookup cell).map Transition.action = (s'.lookup cell).map Transition.action
  next {s s' : State} : R s s' → ∀ cell t, s.lookup cell = some t → isHalting t.next = false →
    Option.Rel R (p.find? t.next) (q.find? t.next)

/-- Configurations that differ in the state only, and there are related. -/
structure Paired (R : State → State → Prop) (c c' : Configuration) : Prop where
  tape : c.tape = c'.tape
  head : c.head = c'.head
  steps : c.steps = c'.steps
  state : R c.state c'.state

variable {p q : Program} {R : State → State → Prop} {c c' : Configuration} {t t' : Transition}

namespace Paired

theorem scanned? (h : Paired R c c') : c.scanned? = c'.scanned? := by
  unfold Configuration.scanned?
  rw [h.tape, h.head]

theorem inBounds (h : Paired R c c') : c.inBounds = c'.inBounds := by
  unfold Configuration.inBounds
  rw [h.tape, h.head]

/-- Transitions that do the same keep configurations paired. -/
theorem act (h : Paired R c c') (ht : t.action = t'.action) : Paired R (c.act t) (c'.act t') := by
  simp only [Transition.action, Prod.mk.injEq] at ht
  obtain ⟨-, hw, hm⟩ := ht
  have hwrites : t.writes = t'.writes := by
    unfold Transition.writes
    rw [hw]
  unfold Configuration.act
  exact ⟨by simp only [h.tape, h.head, hw, hwrites], by simp only [h.head, hm],
    by simp only [h.steps], h.state⟩

theorem view (hR : InLockStep p q R) (h : Paired R c c') : c.view = c'.view := by
  unfold Configuration.view
  rw [h.tape, h.head, h.steps, hR.name h.state]

end Paired

namespace InLockStep

/-- Paired configurations choose alike: nothing, or transitions that do the same. -/
theorem choose (hR : InLockStep p q R) (h : Paired R c c') :
    (∃ fault, c.choose = .error fault ∧ c'.choose = .error fault) ∨
      ∃ cell t t', c.choose = .ok (cell, t) ∧ c'.choose = .ok (cell, t') ∧
        t.action = t'.action := by
  have hs : c.scanned? = c'.scanned? := h.scanned?
  cases hc : c.scanned? with
  | none =>
    rw [hc] at hs
    exact Or.inl ⟨_, Configuration.choose_eq_error.mpr (Or.inl ⟨hc, rfl⟩),
      Configuration.choose_eq_error.mpr (Or.inl ⟨hs.symm, rfl⟩)⟩
  | some cell =>
    rw [hc] at hs
    have hl := hR.lookup h.state cell
    cases ht : c.state.lookup cell with
    | none =>
      rw [ht, Option.map_none, eq_comm, Option.map_eq_none_iff] at hl
      exact Or.inl ⟨_, Configuration.choose_eq_error.mpr (Or.inr ⟨cell, hc, ht, rfl⟩),
        Configuration.choose_eq_error.mpr (Or.inr ⟨cell, hs.symm, hl, rfl⟩)⟩
    | some t =>
      rw [ht, Option.map_some, eq_comm] at hl
      obtain ⟨t', ht', he⟩ := Option.map_eq_some_iff.mp hl
      exact Or.inr ⟨cell, t, t', Configuration.choose_eq_ok.mpr ⟨hc, ht⟩,
        Configuration.choose_eq_ok.mpr ⟨hs.symm, ht'⟩, he.symm⟩

/-- Following transitions that do the same keeps configurations paired. -/
theorem follow (hR : InLockStep p q R) (h : Paired R c c') {cell : Symbol}
    (hl : c.state.lookup cell = some t) (ht : t.action = t'.action) :
    Paired R (follow p cell t c).1 (follow q cell t' c').1 ∧
      (follow p cell t c).2.unplaced = (follow q cell t' c').2.unplaced := by
  have hact : Paired R (c.act t) (c'.act t') := h.act ht
  have hin : (c.act t).inBounds = (c'.act t').inBounds := hact.inBounds
  have hun : ({ t with line := 0 } : Transition) = { t' with line := 0 } := by
    simp only [Transition.action, Prod.mk.injEq] at ht
    rw [ht.1, ht.2.1, ht.2.2]
  have hnext : t.next = t'.next := congrArg Prod.fst ht
  cases hb : (c.act t).inBounds with
  | false =>
    rw [follow_of_outside cell hb, follow_of_outside cell (hin ▸ hb)]
    exact ⟨hact, by simp only [Status.unplaced, Fault.unplaced, hun]⟩
  | true =>
    cases hh : isHalting t.next with
    | true =>
      rw [follow_of_halting cell hb hh, follow_of_halting cell (hin ▸ hb) (hnext ▸ hh)]
      exact ⟨hact, by rw [hnext]⟩
    | false =>
      have hrel := hR.next h.state cell t hl hh
      cases hp : p.find? t.next with
      | none =>
        cases hq : q.find? t.next with
        | none =>
          rw [follow_of_missing cell hb hh hp,
            follow_of_missing cell (hin ▸ hb) (hnext ▸ hh) (hnext ▸ hq)]
          exact ⟨hact, by rw [hnext]⟩
        | some s' =>
          rw [hp, hq] at hrel
          cases hrel
      | some s =>
        cases hq : q.find? t.next with
        | none =>
          rw [hp, hq] at hrel
          cases hrel
        | some s' =>
          rw [hp, hq] at hrel
          cases hrel with
          | some hs =>
            rw [follow_of_find? cell hb hh hp,
              follow_of_find? cell (hin ▸ hb) (hnext ▸ hh) (hnext ▸ hq)]
            exact ⟨⟨hact.tape, hact.head, hact.steps, hs⟩, rfl⟩

/-- A step keeps configurations paired, and ends alike. -/
theorem step (hR : InLockStep p q R) (h : Paired R c c') :
    Paired R (step p c).1 (step q c').1 ∧
      (step p c).2.unplaced = (step q c').2.unplaced := by
  rcases hR.choose h with ⟨fault, hc, hc'⟩ | ⟨cell, t, t', hc, hc', ht⟩
  · rw [step_of_choose_error hc, step_of_choose_error hc']
    exact ⟨h, rfl⟩
  · rw [step_of_choose_ok hc, step_of_choose_ok hc']
    exact hR.follow h (Configuration.choose_eq_ok.mp hc).2 ht

/-- Steps from paired configurations leave both runs going, or none. -/
theorem step_running_iff (hR : InLockStep p q R) (h : Paired R c c') :
    (TapeMachine.step p c).2 = .running ↔ (TapeMachine.step q c').2 = .running := by
  rw [← Status.unplaced_eq_running, (hR.step h).2, Status.unplaced_eq_running]

/-- A run of any length keeps configurations paired, and ends alike. -/
theorem runFor (hR : InLockStep p q R) (n : Nat) (h : Paired R c c') :
    Paired R (runFor p n c).1 (runFor q n c').1 ∧
      (runFor p n c).2.unplaced = (runFor q n c').2.unplaced := by
  induction n generalizing c c' with
  | zero => exact ⟨h, rfl⟩
  | succ n ih =>
    have hstep := hR.step h
    by_cases hs : (TapeMachine.step p c).2 = .running
    · have hs' := (hR.step_running_iff h).mp hs
      rw [runFor_succ_of_running n (Prod.ext rfl hs), runFor_succ_of_running n (Prod.ext rfl hs')]
      exact ih hstep.1
    · have hs' := fun hr => hs ((hR.step_running_iff h).mpr hr)
      rw [runFor_succ_of_not_running n hs, runFor_succ_of_not_running n hs']
      exact hstep

/-- A watcher who notes nothing of a transition but what it does sees the same. -/
theorem trace {α : Type} (hR : InLockStep p q R)
    (note : Tape × Int × String × Nat → Symbol → String × Symbol × Move → α) (n : Nat)
    (h : Paired R c c') : trace (fun c cell t => note c.view cell t.action) p n c =
      trace (fun c cell t => note c.view cell t.action) q n c' := by
  induction n generalizing c c' with
  | zero => rfl
  | succ n ih =>
    rcases hR.choose h with ⟨fault, hc, hc'⟩ | ⟨cell, t, t', hc, hc', ht⟩
    · rw [trace_of_choose_error _ hc, trace_of_choose_error _ hc']
    · by_cases hs : (TapeMachine.step p c).2 = .running
      · have hs' := (hR.step_running_iff h).mp hs
        rw [trace_of_running n hc (Prod.ext rfl hs), trace_of_running n hc' (Prod.ext rfl hs'),
          h.view hR, ht, ih (hR.step h).1]
      · have hs' := fun hr => hs ((hR.step_running_iff h).mpr hr)
        rw [trace_of_not_running n hc hs, trace_of_not_running n hc' hs', h.view hR, ht]

end InLockStep

/-! ## Machines in lock-step -/

namespace Machine

/-- On an input the machines begin alike, or fail to alike, also for want of memory. In any number of
steps they make the same transitions, come to the same configuration but for lines, and end alike, with
the same result or the same message; and if they fail, the same is raised, which is the error of showing
the head if it cannot be shown. -/
structure RunsLike [Host] (m m' : Machine) (contents : String) (size head : Int) : Prop where
  first : (m.begin contents size head).map Configuration.view =
    (m'.begin contents size head).map Configuration.view
  prepared : (m.prepare contents size head).map Configuration.view =
    (m'.prepare contents size head).map Configuration.view
  trace : ∀ c c', m.begin contents size head = .ok c → m'.begin contents size head = .ok c' → ∀ n,
    trace (fun c cell t => (c.view, cell, t.text)) m.program n c =
      trace (fun c cell t => (c.view, cell, t.text)) m'.program n c'
  view : ∀ c c', m.begin contents size head = .ok c → m'.begin contents size head = .ok c' → ∀ n,
    (runFor m.program n c).1.view = (runFor m'.program n c').1.view
  status : ∀ c c', m.begin contents size head = .ok c → m'.begin contents size head = .ok c' → ∀ n,
    (runFor m.program n c).2.unplaced = (runFor m'.program n c').2.unplaced
  outcome : ∀ c c', m.begin contents size head = .ok c → m'.begin contents size head = .ok c' → ∀ n,
    Outcome.ofRun (runFor m.program n c) = Outcome.ofRun (runFor m'.program n c')
  raised : ∀ c c', m.begin contents size head = .ok c → m'.begin contents size head = .ok c' → ∀ n,
    raised? (runFor m.program n c) = raised? (runFor m'.program n c')

/-- Machines that begin in related states begin in paired configurations. -/
theorem paired_begin {m m' : Machine} {R : State → State → Prop} (hs : R m.start m'.start)
    {contents : String} {size head : Int} {c c' : Configuration}
    (hb : m.begin contents size head = .ok c) (hb' : m'.begin contents size head = .ok c') :
    Paired R c c' := by
  obtain ⟨tape, ht, rfl⟩ := begin_eq_ok.mp hb
  obtain ⟨tape', ht', rfl⟩ := begin_eq_ok.mp hb'
  rw [ht, Except.ok.injEq] at ht'
  exact ⟨ht', rfl, rfl, hs⟩

/-- Machines whose start states have one name begin alike. -/
theorem map_view_begin {m m' : Machine} (hname : m.start.name = m'.start.name) (contents : String)
    (size head : Int) : (m.begin contents size head).map Configuration.view =
      (m'.begin contents size head).map Configuration.view := by
  unfold Machine.begin Configuration.begin
  cases Tape.create contents size with
  | error e => rfl
  | ok tape =>
    have hv : (Configuration.onTape tape head m.start).view =
        (Configuration.onTape tape head m'.start).view := by
      simp only [Configuration.view, Configuration.onTape, hname]
    simp only [Except.map, hv]

theorem map_view_prepare [Host] {m m' : Machine} (hname : m.start.name = m'.start.name) (contents : String)
    (size head : Int) : (m.prepare contents size head).map Configuration.view =
      (m'.prepare contents size head).map Configuration.view := by
  have hbegin := map_view_begin hname contents size head
  unfold prepare
  split
  · rfl
  · cases hb : m.begin contents size head with
    | error e =>
      cases hb' : m'.begin contents size head with
      | error e' =>
        rw [hb, hb'] at hbegin
        cases hbegin
        rfl
      | ok c' =>
        rw [hb, hb'] at hbegin
        cases hbegin
    | ok c =>
      cases hb' : m'.begin contents size head with
      | error e' =>
        rw [hb, hb'] at hbegin
        cases hbegin
      | ok c' =>
        rw [hb, hb'] at hbegin
        exact congrArg Except.ok (Except.ok.inj hbegin)

/-- Machines whose programs run in lock-step from their start states run alike on every input. -/
theorem runsLike_of_inLockStep [Host] {m m' : Machine} {R : State → State → Prop}
    (hR : InLockStep m.program m'.program R) (hs : R m.start m'.start) (contents : String)
    (size head : Int) : m.RunsLike m' contents size head where
  first := map_view_begin (hR.name hs) contents size head
  prepared := map_view_prepare (hR.name hs) contents size head
  trace := fun _ _ hb hb' n => hR.trace
    (fun v cell a => (v, cell, a.1 ++ ", " ++ a.2.1 ++ ", " ++ a.2.2.token)) n (paired_begin hs hb hb')
  view := fun _ _ hb hb' n => (hR.runFor n (paired_begin hs hb hb')).1.view hR
  status := fun _ _ hb hb' n => (hR.runFor n (paired_begin hs hb hb')).2
  outcome := fun _ _ hb hb' n =>
    let h := hR.runFor n (paired_begin hs hb hb')
    Outcome.ofRun_congr (h.1.view hR) h.2
  raised := fun _ _ hb hb' n =>
    let h := hR.runFor n (paired_begin hs hb hb')
    raised?_congr (h.1.view hR) h.2

end Machine

end TapeMachine
