import TapeMachine.Proofs.Endings
import TapeMachine.Proofs.Grammar
import TapeMachine.Proofs.Safety
import TapeMachine.Sample

/-!
# Traces of runs

A watcher is shown each transition of a run after it is looked up and before it is followed. What a
watcher is shown is a complete log of the run: the tape, the head, the state and the count of steps at
any moment follow from the log up to then, and each transition stands on a line of the program.

## Main statements

* `watchedRun_eq` — a watcher changes nothing about a run, and sees all of its transitions
* `getElem?_sights` — what is seen in a place of the log
* `Follows.runFor` — a run comes to where its log leads
* `Program.mem_rules_of_read` — the rules of a program are those on the lines of its text
* `Machine.onLine_of_lookup` — a transition that is looked up stands on a line of the program
* `Machine.trace_logs_run` — all this of every run of a compiled machine
-/

namespace TapeMachine

variable {p : Program} {c c' : Configuration} {n : Nat}

/-! ## Watchers -/

/-- What a watcher is shown of a transition. -/
structure Sight where
  /-- The configuration before the transition is followed. -/
  before : Configuration
  /-- The scanned symbol. -/
  cell : Symbol
  transition : Transition

/-- The transitions of at most `n` steps of a run, as a watcher is shown them. -/
def sights (p : Program) (n : Nat) (c : Configuration) : List Sight := trace Sight.mk p n c

section

variable {σ : Type} (see : σ → Sight → σ)

/-- One step under the eyes of a watcher, who is shown the transition between its look-up and its
effect. -/
def watchedStep (p : Program) (c : Configuration) (watcher : σ) : (Configuration × Status) × σ :=
  match c.choose with
  | .error fault => ((c, .failed fault), watcher)
  | .ok (cell, t) =>
    let watcher := see watcher ⟨c, cell, t⟩
    (follow p cell t c, watcher)

/-- At most `n` steps under the eyes of a watcher. -/
def watchedRun (p : Program) : Nat → Configuration → σ → (Configuration × Status) × σ
  | 0, c, watcher => ((c, .running), watcher)
  | n + 1, c, watcher =>
    match watchedStep see p c watcher with
    | ((c', .running), watcher) => watchedRun p n c' watcher
    | ended => ended

end

/-! ## A step and the rest -/

/-- What a run and its log begin with: there is nothing to do, or one transition that ends the run, or
one after which both go on. -/
theorem run_cases (p : Program) (n : Nat) (c : Configuration) :
    (∃ fault, c.choose = .error fault ∧ step p c = (c, .failed fault) ∧
      runFor p (n + 1) c = (c, .failed fault) ∧ sights p (n + 1) c = []) ∨
    (∃ cell t ending, c.choose = .ok (cell, t) ∧ step p c = (c.act t, ending) ∧ ending ≠ .running ∧
      runFor p (n + 1) c = (c.act t, ending) ∧ sights p (n + 1) c = [⟨c, cell, t⟩]) ∨
    ∃ cell t s, c.choose = .ok (cell, t) ∧ step p c = ({ c.act t with state := s }, .running) ∧
      runFor p (n + 1) c = runFor p n { c.act t with state := s } ∧
      sights p (n + 1) c = ⟨c, cell, t⟩ :: sights p n { c.act t with state := s } := by
  cases hc : c.choose with
  | error fault =>
    have hs := step_of_choose_error (p := p) hc
    refine Or.inl ⟨fault, rfl, hs, ?_, trace_of_choose_error _ hc⟩
    rw [runFor_succ_of_not_running n (by simp [hs]), hs]
  | ok chosen =>
    obtain ⟨cell, t⟩ := chosen
    have hs := step_of_choose_ok (p := p) hc
    right
    have ended : ∀ ending, follow p cell t c = (c.act t, ending) → ending ≠ .running →
        ∃ cell' t' ending', Except.ok (cell, t) = Except.ok (ε := Fault) (cell', t') ∧
          step p c = (c.act t', ending') ∧ ending' ≠ .running ∧
          runFor p (n + 1) c = (c.act t', ending') ∧ sights p (n + 1) c = [⟨c, cell', t'⟩] := by
      intro ending hf he
      have hn : (step p c).2 ≠ .running := by
        rw [hs, hf]
        exact he
      refine ⟨cell, t, ending, rfl, hs.trans hf, he, ?_, trace_of_not_running n hc hn⟩
      rw [runFor_succ_of_not_running n hn, hs, hf]
    rcases follow_cases p cell t c with ⟨-, hf⟩ | ⟨-, -, hf⟩ | ⟨-, -, -, hf⟩ | ⟨-, -, s, -, hf⟩
    · exact Or.inl (ended _ hf (by simp))
    · exact Or.inl (ended _ hf (by simp))
    · exact Or.inl (ended _ hf (by simp))
    · have hrun := hs.trans hf
      exact Or.inr ⟨cell, t, s, rfl, hrun, runFor_succ_of_running n hrun, trace_of_running n hc hrun⟩

/-- A watcher changes nothing about a run, and is shown all its transitions in order. -/
theorem watchedRun_eq {σ : Type} (see : σ → Sight → σ) (p : Program) (n : Nat) (c : Configuration)
    (watcher : σ) : watchedRun see p n c watcher = (runFor p n c, (sights p n c).foldl see watcher) := by
  induction n generalizing c watcher with
  | zero => rfl
  | succ n ih =>
    unfold watchedRun watchedStep
    rcases run_cases p n c with ⟨fault, hc, -, hr, hl⟩ | ⟨cell, t, ending, hc, hs, he, hr, hl⟩ |
      ⟨cell, t, s, hc, hs, hr, hl⟩
    · simp only [hc, hr, hl, List.foldl_nil]
    · rw [step_of_choose_ok hc] at hs
      simp only [hc, hs, hr, hl, List.foldl_cons, List.foldl_nil]
      cases ending with
      | running => exact absurd rfl he
      | halted accepted => rfl
      | failed fault => rfl
    · rw [step_of_choose_ok hc] at hs
      simp only [hc, hs, hr, hl, List.foldl_cons, ih]

/-- Whatever is noted of the transitions is noted of those that a watcher is shown. -/
theorem trace_eq_map {α : Type} (view : Configuration → Symbol → Transition → α) (p : Program)
    (n : Nat) (c : Configuration) :
    trace view p n c = (sights p n c).map fun x => view x.before x.cell x.transition := by
  induction n generalizing c with
  | zero => rfl
  | succ n ih =>
    rcases run_cases p n c with ⟨fault, hc, -, -, hl⟩ | ⟨cell, t, ending, hc, hs, he, -, hl⟩ |
      ⟨cell, t, s, hc, hs, -, hl⟩
    · rw [hl, trace_of_choose_error _ hc, List.map_nil]
    · rw [hl, trace_of_not_running n hc (by rwa [hs]), List.map_singleton]
    · rw [hl, trace_of_running n hc hs, List.map_cons, ih]

/-! ## Places of the log -/

/-- In the first place of the log is the first configuration, with the transition that is looked up
there. -/
theorem first_sight_iff {cell : Symbol} {t : Transition} {x : Sight}
    (hc : c.choose = .ok (cell, t)) : some (⟨c, cell, t⟩ : Sight) = some x ↔
      0 < n + 1 ∧ runFor p 0 c = (x.before, .running) ∧
        x.before.choose = .ok (x.cell, x.transition) := by
  simp only [runFor_zero, Option.some.injEq, Prod.mk.injEq, and_true]
  constructor
  · rintro rfl
    exact ⟨by omega, rfl, hc⟩
  · rintro ⟨-, rfl, hx⟩
    rw [hc, Except.ok.injEq, Prod.mk.injEq] at hx
    rw [hx.1, hx.2]

/-- In a place of the log is the configuration after as many steps, with the transition that is
looked up there. -/
theorem getElem?_sights {i : Nat} {x : Sight} : (sights p n c)[i]? = some x ↔
    i < n ∧ runFor p i c = (x.before, .running) ∧
      x.before.choose = .ok (x.cell, x.transition) := by
  induction n generalizing i c with
  | zero => simp [sights, trace]
  | succ n ih =>
    rcases run_cases p n c with ⟨fault, hc, hs, -, hl⟩ | ⟨cell, t, ending, hc, hs, he, -, hl⟩ |
      ⟨cell, t, s, hc, hs, -, hl⟩
    all_goals rw [hl]
    · cases i with
      | zero =>
        simp only [List.getElem?_nil, runFor_zero, Prod.mk.injEq, and_true, reduceCtorEq, false_iff]
        rintro ⟨-, rfl, hx⟩
        rw [hc] at hx
        cases hx
      | succ i =>
        rw [runFor_succ_of_not_running i (by simp [hs]), hs]
        simp
    · cases i with
      | zero => exact first_sight_iff hc
      | succ i =>
        rw [runFor_succ_of_not_running i (by rwa [hs]), hs]
        simp [he]
    · cases i with
      | zero => exact first_sight_iff hc
      | succ i =>
        rw [List.getElem?_cons_succ, ih, runFor_succ_of_running i hs, Nat.succ_lt_succ_iff]

/-- The log of a shorter run is the beginning of the log. -/
theorem take_sights (p : Program) (i n : Nat) (c : Configuration) :
    (sights p n c).take i = sights p (min i n) c := by
  induction n generalizing i c with
  | zero => rw [Nat.min_zero, sights, trace, List.take_nil]
  | succ n ih =>
    cases i with
    | zero =>
      rw [Nat.zero_min]
      rfl
    | succ i =>
      rw [Nat.succ_min_succ]
      rcases run_cases p n c with ⟨fault, hc, -, -, hl⟩ | ⟨cell, t, ending, hc, hs, he, -, hl⟩ |
        ⟨cell, t, s, hc, hs, -, hl⟩
      all_goals rw [hl]
      · exact (trace_of_choose_error _ hc).symm
      · rw [List.take_succ_cons, List.take_nil]
        exact (trace_of_not_running _ hc (by rwa [hs])).symm
      · rw [List.take_succ_cons, ih]
        exact (trace_of_running _ hc hs).symm

/-! ## What a log tells -/

namespace Sight

/-- The tape after what the transition writes, which is nothing if it writes the wildcard. -/
def replay (tape : Tape) (x : Sight) : Tape :=
  if x.transition.write = Symbol.wildcard then tape
  else tape.setIfInBounds x.before.head.toNat x.transition.write

/-- Where the transition moves the head. -/
def headAfter (x : Sight) : Int := x.before.head + x.transition.move.delta

theorem tape_act (x : Sight) : (x.before.act x.transition).tape = x.replay x.before.tape := by
  unfold Configuration.act replay Transition.writes
  by_cases hw : x.transition.write = Symbol.wildcard
  · simp [hw]
  · simp [hw]

end Sight

/-- A tape with the writes of a log replayed in order. -/
def replay (tape : Tape) (log : List Sight) : Tape := log.foldl (fun tape x => x.replay tape) tape

/-- A configuration to which a log leads from a first one: the writes are replayed, the head is where
the last transition moved it, and each transition is counted. -/
structure Follows (c : Configuration) (log : List Sight) (c' : Configuration) : Prop where
  tape : c'.tape = replay c.tape log
  head : c'.head = (log.getLast?.map Sight.headAfter).getD c.head
  steps : c'.steps = c.steps + log.length

theorem Follows.refl (c : Configuration) : Follows c [] c := ⟨rfl, rfl, rfl⟩

/-- A transition and then a log. -/
theorem Follows.cons {x : Sight} {log : List Sight} {s : State}
    (h : Follows { x.before.act x.transition with state := s } log c') :
    Follows x.before (x :: log) c' := by
  refine ⟨?_, ?_, ?_⟩
  · rw [h.tape, replay, replay, List.foldl_cons, ← x.tape_act]
  · rw [h.head, List.getLast?_cons, Option.map_some, Option.getD_some]
    cases log.getLast? with
    | none => rfl
    | some y => rfl
  · have hact : (x.before.act x.transition).steps = x.before.steps + 1 := rfl
    rw [h.steps, hact, List.length_cons]
    omega

/-- A run comes to where its log leads, however it ends. -/
theorem Follows.runFor (p : Program) (n : Nat) (c : Configuration) :
    Follows c (sights p n c) (runFor p n c).1 := by
  induction n generalizing c with
  | zero => exact .refl c
  | succ n ih =>
    rcases run_cases p n c with ⟨fault, -, -, hr, hl⟩ | ⟨cell, t, ending, -, -, -, hr, hl⟩ |
      ⟨cell, t, s, -, -, hr, hl⟩
    all_goals rw [hl, hr]
    · exact .refl c
    · have hlast : Follows { c.act t with state := c.state } [] (c.act t) := .refl _
      exact hlast.cons (x := ⟨c, cell, t⟩)
    · exact (ih _).cons (x := ⟨c, cell, t⟩)

/-- At each transition the run has come to where the log up to then leads. -/
theorem Follows.before {i : Nat} {x : Sight} (h : (sights p n c)[i]? = some x) :
    Follows c ((sights p n c).take i) x.before := by
  obtain ⟨hi, hr, -⟩ := getElem?_sights.mp h
  have hf := Follows.runFor p i c
  rwa [hr, ← Nat.min_eq_left hi.le, ← take_sights] at hf

/-- A transition that is followed by another goes to its state and moves the head there. -/
theorem next_of_getElem?_sights {i : Nat} {x y : Sight} (hx : (sights p n c)[i]? = some x)
    (hy : (sights p n c)[i + 1]? = some y) :
    y.before.state.name = x.transition.next ∧ y.before.head = x.headAfter := by
  obtain ⟨-, hrx, hcx⟩ := getElem?_sights.mp hx
  obtain ⟨-, hry, -⟩ := getElem?_sights.mp hy
  have hone : runFor p (0 + 1) x.before = (y.before, .running) := by
    rw [runFor_add, hrx] at hry
    exact hry
  have hs : step p x.before = (y.before, .running) := by
    rcases run_cases p 0 x.before with ⟨fault, -, -, hr, -⟩ | ⟨cell, t, ending, -, -, he, hr, -⟩ |
      ⟨cell, t, s, -, hs, hr, -⟩
    · rw [hr] at hone
      exact absurd (congrArg Prod.snd hone) (by simp)
    · rw [hr] at hone
      exact absurd (congrArg Prod.snd hone) he
    · rw [hr, runFor_zero] at hone
      rw [hs, hone]
  obtain ⟨cell, t, s, hc, -, -, hf, hy⟩ := of_step_running hs
  rw [hcx, Except.ok.injEq, Prod.mk.injEq] at hc
  obtain ⟨-, rfl⟩ := hc
  rw [hy]
  exact ⟨(Program.find?_eq_some.mp hf).2, rfl⟩

/-- A run that halts has followed a transition to a halting state last, and its verdict is that
state. -/
theorem exists_last_sight {accepted : Bool} (h : runFor p n c = (c', .halted accepted)) :
    ∃ x, (sights p n c).getLast? = some x ∧ isHalting x.transition.next = true ∧
      accepted = decide (x.transition.next = acceptName) := by
  obtain ⟨k, last, hk, hr, hs⟩ := exists_last_step h (by simp)
  have hlength : (runFor p n c).1.steps = c.steps + (sights p n c).length :=
    (Follows.runFor p n c).steps
  cases hc : last.choose with
  | error fault =>
    rw [step_of_choose_error hc] at hs
    cases hs
  | ok chosen =>
    obtain ⟨cell, t⟩ := chosen
    have hx : (sights p n c)[k]? = some ⟨last, cell, t⟩ := getElem?_sights.mpr ⟨hk, hr, hc⟩
    rw [step_of_choose_ok hc] at hs
    have hcount := steps_follow p cell t last
    rw [hs, steps_of_runFor_running hr] at hcount
    rw [h, hcount] at hlength
    refine ⟨⟨last, cell, t⟩, ?_, ?_⟩
    · rw [List.getLast?_eq_getElem?, ← hx]
      congr 1
      omega
    · rcases follow_cases p cell t last with ⟨-, hf⟩ | ⟨-, hh, hf⟩ | ⟨-, -, -, hf⟩ |
        ⟨-, -, s, -, hf⟩
      all_goals rw [hf] at hs
      · cases hs
      · cases hs
        exact ⟨hh, rfl⟩
      · cases hs
      · cases hs

/-- What is noted between the start and the end of a run is noted of its whole log. -/
theorem traceBetween_eq {α : Type} (view : Configuration → Symbol → Transition → α) (p : Program)
    (n : Nat) (c : Configuration) : traceBetween view p c (runFor p n c).1 =
      (sights p n c).map fun x => view x.before x.cell x.transition := by
  have hcount : (runFor p n c).1.steps - c.steps = (sights p n c).length := by
    have h := (Follows.runFor p n c).steps
    omega
  have hall : sights p (min (sights p n c).length n) c = sights p n c := by
    rw [← take_sights, List.take_length]
  have hle : (sights p n c).length ≤ n := by
    by_contra hlt
    have hn : n < (sights p n c).length := by omega
    have hx := (getElem?_sights.mp (List.getElem?_eq_getElem hn)).1
    omega
  rw [traceBetween, hcount, trace_eq_map, ← Nat.min_eq_left hle, hall]

/-! ## Lines of the program -/

namespace Program

variable {source : String} {texts : List String} {first : Int} {rs : List Rule} {r : Rule}

/-- A rule stands on a line of a text, counted from one. -/
def StandsIn (source : String) (r : Rule) : Prop :=
  ∃ (i : Nat) (text : String), (Text.lines source)[i]? = some text ∧
    r.transition.line = (i : Int) + 1 ∧ Rule.read text r.transition.line = .ok r

/-- The rules on numbered lines are what the lines read as. -/
theorem mem_readAs (h : ReadAs (number first texts) rs) :
    r ∈ rs ↔ ∃ (i : Nat) (text : String), texts[i]? = some text ∧ Rule.read text (first + i) = .ok r := by
  induction texts generalizing first rs with
  | nil =>
    cases h
    simp
  | cons text texts ih =>
    rw [number] at h
    have hsplit : (∃ (i : Nat) (line : String), (text :: texts)[i]? = some line ∧
        Rule.read line (first + i) = .ok r) ↔ Rule.read text first = .ok r ∨
          ∃ (i : Nat) (line : String), texts[i]? = some line ∧ Rule.read line (first + 1 + i) = .ok r := by
      constructor
      · rintro ⟨i, line, hi, hread⟩
        cases i with
        | zero =>
          cases hi
          exact Or.inl (by simpa using hread)
        | succ i => exact Or.inr ⟨i, line, hi, by rwa [Int.add_assoc, Int.add_comm 1]⟩
      · rintro (hread | ⟨i, line, hi, hread⟩)
        · exact ⟨0, text, rfl, by simpa using hread⟩
        · exact ⟨i + 1, line, hi, by rwa [Int.add_assoc, Int.add_comm 1] at hread⟩
    rw [hsplit]
    cases hb : Text.blankLine text with
    | true =>
      rw [ih ((readAs_cons_blank hb).mp h)]
      refine (or_iff_right ?_).symm
      intro hread
      obtain ⟨l, hl, -⟩ := Layout.exists_spells hread
      rw [hl.not_blank] at hb
      cases hb
    | false =>
      obtain ⟨r', rs', hread, hrest, rfl⟩ := (readAs_cons_rule hb).mp h
      rw [List.mem_cons, ih hrest, hread, Except.ok.injEq, @eq_comm _ r]

/-- The rules of a program that was read are those that stand on the lines of its text. -/
theorem mem_rules_of_read (h : read source = .ok p) : r ∈ p.rules ↔ StandsIn source r := by
  obtain ⟨rs, hrs, hlists⟩ := lists_empty.readLines h
  rw [hlists.perm.mem_iff, List.nil_append, mem_readAs hrs]
  constructor
  · rintro ⟨i, text, hi, hread⟩
    have hline := Rule.line_of_read hread
    exact ⟨i, text, hi, by rw [hline, Int.add_comm], by rwa [hline]⟩
  · rintro ⟨i, text, hi, hline, hread⟩
    exact ⟨i, text, hi, by rwa [hline, Int.add_comm] at hread⟩

end Program

/-! ## Runs of compiled machines -/

namespace Machine

variable {m : Machine} {source : String} {items : List Json} {contents : String} {size head : Int}
  {c₀ : Configuration} {x : Sight}

/-- What the log of at most `n` steps of a run from a first configuration tells. Each transition is
shown with as many steps as were shown before it, in the state and with the head that the one before
it led to, and with the symbol that stands there once the earlier writes are replayed. It stands on a
line of the program, under that state and that symbol, or under the wildcard if the state has no rule
for the symbol. The steps of the run are those of the log, and what a halted run leaves behind is the
tape with all writes replayed, the head where the last transition moved it, and its verdict. -/
structure Logs (m : Machine) (source : String) (c₀ : Configuration) (n : Nat) (log : List Sight) :
    Prop where
  steps : ∀ (i : Nat) x, log[i]? = some x → x.before.steps = i
  first : ∀ x, log[0]? = some x → x.before.state.name = startName ∧ x.before.head = c₀.head
  next : ∀ (i : Nat) x y, log[i]? = some x → log[i + 1]? = some y →
    y.before.state.name = x.transition.next ∧
      y.before.head = x.before.head + x.transition.move.delta
  cell : ∀ (i : Nat) x, log[i]? = some x → 0 ≤ x.before.head ∧
    (replay c₀.tape (log.take i))[x.before.head.toNat]? = some x.cell
  line : ∀ x ∈ log, ∃ trigger,
    Program.StandsIn source ⟨x.before.state.name, trigger, x.transition⟩ ∧
      (trigger = x.cell ∨ trigger = Symbol.wildcard ∧ ∀ r, Program.StandsIn source r →
        r.state = x.before.state.name → r.trigger ≠ x.cell)
  count : (runFor m.program n c₀).1.steps = log.length
  running : (runFor m.program n c₀).2 = .running → log.length = n
  halted : ∀ c accepted, runFor m.program n c₀ = (c, .halted accepted) →
    ∃ x, log.getLast? = some x ∧ Result.ofFinal c accepted =
      { tape := (replay c₀.tape log).contents, head := x.before.head + x.transition.move.delta,
        accepted := x.transition.next = acceptName, steps := log.length }

/-- A transition that is looked up in a state of the program stands on a line under the state, and
under the symbol unless the state has no rule for it. -/
theorem onLine_of_lookup (hm : compile source items = .ok m) {s : State} {cell : Symbol}
    {t : Transition} (hs : s ∈ m.program.states) (ht : s.lookup cell = some t) :
    ∃ trigger, Program.StandsIn source ⟨s.name, trigger, t⟩ ∧
      (trigger = cell ∨ trigger = Symbol.wildcard ∧ ∀ r, Program.StandsIn source r →
        r.state = s.name → r.trigger ≠ cell) := by
  have hread := (compile_eq_ok.mp hm).2
  have hfind : m.program.find? s.name = some s := Program.find?_eq_some.mpr ⟨hs, rfl⟩
  have hstands : ∀ {trigger : Symbol}, s.rules.find? trigger = some t →
      Program.StandsIn source ⟨s.name, trigger, t⟩ := fun hf =>
    (Program.mem_rules_of_read hread).mp (Program.mem_rules_iff.mpr ⟨s, hfind, hf⟩)
  rcases Option.or_eq_some_iff.mp ht with hf | ⟨hnone, hf⟩
  · exact ⟨cell, hstands hf, Or.inl rfl⟩
  · refine ⟨Symbol.wildcard, hstands hf, Or.inr ⟨rfl, ?_⟩⟩
    rintro r hr hname rfl
    obtain ⟨s', hs', hf'⟩ := Program.mem_rules_iff.mp ((Program.mem_rules_of_read hread).mpr hr)
    rw [hname, hfind, Option.some.injEq] at hs'
    rw [← hs', hnone] at hf'
    cases hf'

/-- At each transition of a run the state is one of the program. -/
theorem state_mem_of_getElem?_sights (hb : m.begin contents size head = .ok c₀) {n i : Nat}
    (h : (sights m.program n c₀)[i]? = some x) : x.before.state ∈ m.program.states := by
  obtain ⟨-, hr, -⟩ := getElem?_sights.mp h
  exact (Program.mem_reachable_iff.mp ((Keeps.of_begin hb).runFor hr).1.state).1

/-- A run that is followed to its end takes some number of steps, and all the steps it has: it ends
exactly if some number of steps ends it, and then as these do. -/
theorem runFor_of_run [Host] (hb : m.begin contents size head = .ok c₀) {r : Configuration × Status}
    (h : m.run contents size head = .ok r) : (∃ n, runFor m.program n c₀ = r) ∧
      ∀ n, (runFor m.program n c₀).2 ≠ .running → runFor m.program n c₀ = r := by
  unfold Machine.run at h
  cases hp : m.prepare contents size head with
  | error e =>
    rw [hp] at h
    cases h
  | ok c =>
    rw [hp] at h
    cases h
    have hc : c = c₀ := Except.ok.inj ((prepare_eq_ok.mp hp).2.symm.trans hb)
    rw [hc]
    exact ⟨⟨_, by rw [run_eq_runFor]⟩, fun n hn => (run_of_ended hn).symm⟩

/-- The first steps of a run of a compiled machine are told by their log, however many they are. -/
theorem logs_runFor (hm : compile source items = .ok m)
    (hb : m.begin contents size head = .ok c₀) (n : Nat) :
    m.Logs source c₀ n (sights m.program n c₀) := by
  obtain ⟨tape, -, hc₀⟩ := begin_eq_ok.mp hb
  have hzero : c₀.steps = 0 := by rw [hc₀]
  have hfollows := Follows.runFor m.program n c₀
  constructor
  case steps =>
    intro i x hx
    have hr := (getElem?_sights.mp hx).2.1
    rw [steps_of_runFor_running hr, hzero, Nat.zero_add]
  case first =>
    intro x hx
    obtain ⟨-, hr, -⟩ := getElem?_sights.mp hx
    cases hr
    rw [hc₀]
    exact ⟨(Program.find?_eq_some.mp m.find?_startName).2, rfl⟩
  case next =>
    intro i x y hx hy
    exact next_of_getElem?_sights hx hy
  case cell =>
    intro i x hx
    obtain ⟨-, -, hc⟩ := getElem?_sights.mp hx
    obtain ⟨h0, hcell⟩ := Option.ite_none_right_eq_some.mp (Configuration.choose_eq_ok.mp hc).1
    rw [(Follows.before hx).tape] at hcell
    exact ⟨h0, hcell⟩
  case line =>
    intro x hmem
    obtain ⟨i, hi⟩ := List.mem_iff_getElem?.mp hmem
    obtain ⟨-, -, hc⟩ := getElem?_sights.mp hi
    exact onLine_of_lookup hm (state_mem_of_getElem?_sights hb hi)
      (Configuration.choose_eq_ok.mp hc).2
  case count =>
    rw [hfollows.steps, hzero, Nat.zero_add]
  case running =>
    intro hr
    have hsteps := steps_of_runFor_running (Prod.ext rfl hr)
    rw [hfollows.steps] at hsteps
    omega
  case halted =>
    intro c accepted hr
    obtain ⟨x, hx, -, rfl⟩ := exists_last_sight hr
    rw [hr] at hfollows
    refine ⟨x, hx, ?_⟩
    rw [Result.ofFinal, hfollows.tape, hfollows.head, hfollows.steps, hx, hzero, Nat.zero_add]
    rfl

/-- The trace of a compiled machine is a complete log of its run, on every input and for any number of
steps, however the run ends. Any watcher is shown this log and changes nothing about the run, and what
is noted between its start and its end is noted of this log. To follow a run to its end is to take some
number of steps, and if any number of steps ends it, then as these do. -/
theorem trace_logs_run [Host] (hm : compile source items = .ok m)
    (hb : m.begin contents size head = .ok c₀) :
    (∀ n, (∀ {σ : Type} (see : σ → Sight → σ) (watcher : σ), watchedRun see m.program n c₀ watcher =
        (runFor m.program n c₀, (sights m.program n c₀).foldl see watcher)) ∧
      (∀ {α : Type} (view : Configuration → Symbol → Transition → α),
        traceBetween view m.program c₀ (runFor m.program n c₀).1 =
          (sights m.program n c₀).map fun x => view x.before x.cell x.transition) ∧
      m.Logs source c₀ n (sights m.program n c₀)) ∧
    ∀ r, m.run contents size head = .ok r → (∃ n, runFor m.program n c₀ = r) ∧
      ∀ n, (runFor m.program n c₀).2 ≠ .running → runFor m.program n c₀ = r := by
  constructor
  · intro n
    exact ⟨fun see watcher => watchedRun_eq see m.program n c₀ watcher,
      fun view => traceBetween_eq view m.program n c₀, logs_runFor hm hb n⟩
  · intro r hr
    exact runFor_of_run hb hr

section

attribute [local instance] Host.usual

/-- The sample program on two letters in eight cells, where a watcher is shown four transitions. -/
theorem trace_logs_run_evens : ∃ m c₀,
    compile Sample.evens (Alphabet.itemsOf Sample.evensLetters) = .ok m ∧
      m.begin "aa" 8 0 = .ok c₀ ∧
      (sights m.program 8 c₀).map (fun x => (x.before.state.name, x.cell)) =
        [("S", "_"), ("E", "a"), ("O", "a"), ("E", "_")] ∧
      ∀ n, m.Logs Sample.evens c₀ n (sights m.program n c₀) := by
  let tape : Tape := #["_", "a", "a", "_", "_", "_", "_", "_"]
  let seen : Machine → Bool := fun m =>
    (sights m.program 8 ⟨tape, 0, m.start, 0⟩).map (fun x => (x.before.state.name, x.cell)) =
      [("S", "_"), ("E", "a"), ("O", "a"), ("E", "_")]
  have hseen : ((compile Sample.evens (Alphabet.itemsOf Sample.evensLetters)).toOption.any seen) =
      true := by decide +kernel
  obtain ⟨m, hm, hs⟩ := Sample.exists_machine_with hseen
  have hb : m.begin "aa" 8 0 = .ok ⟨tape, 0, m.start, 0⟩ := begin_eq_ok.mpr ⟨_, by rfl, rfl⟩
  exact ⟨m, _, hm, hb, of_decide_eq_true hs, fun n => ((trace_logs_run hm hb).1 n).2.2⟩

end

end Machine

end TapeMachine
