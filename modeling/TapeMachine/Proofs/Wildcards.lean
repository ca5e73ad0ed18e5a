import TapeMachine.Proofs.LockStep
import TapeMachine.Proofs.Traces

/-!
# The wildcard is shorthand

A rule under the wildcard stands for rules under all letters for which its state has no rule of their
own. A program in which each state has its wildcard spelled out so is valid over the same alphabet, and
on a tape of letters its runs are the same. They need not be the same on other tapes, so the proof goes
along with a run: its tape holds letters at every moment, for only letters are written. The states that
can be reached can become fewer, since a wildcard that stood beside rules for all letters is gone.

## Main statements

* `State.spellsOut_spelled`, `Program.spellsOut_spelled` — how a wildcard can be spelled out
* `State.SpellsOut.lookup` — the same is looked up for every letter
* `Program.SpellsOut.validOver` — validity is kept, though less can be reached
* `Spelled.step`, `Spelled.runFor` — a step and a run on a tape of letters
* `Machine.wildcard_is_shorthand` — all this of every compiled machine
-/

namespace TapeMachine

/-! ## Filling a table -/

namespace Table

variable {κ ν : Type} [DecidableEq κ]

/-- The table with a value under each of the keys that has none. -/
def fill (t : Table κ ν) (v : ν) (ks : List κ) : Table κ ν :=
  ks.foldl (fun t k => if t.contains k then t else t.set k v) t

theorem find?_fill (t : Table κ ν) (v : ν) (ks : List κ) (k : κ) :
    (t.fill v ks).find? k = (t.find? k).or (if k ∈ ks then some v else none) := by
  induction ks generalizing t with
  | nil => rw [fill, List.foldl_nil, if_neg List.not_mem_nil, Option.or_none]
  | cons k₁ ks ih =>
    have hstep : t.fill v (k₁ :: ks) = (if t.contains k₁ then t else t.set k₁ v).fill v ks := rfl
    rw [hstep, ih]
    by_cases hk : k₁ = k
    · subst hk
      rw [if_pos List.mem_cons_self]
      cases hf : t.find? k₁ with
      | none => rw [if_neg (by simp [contains, hf]), find?_set, if_pos rfl, Option.some_or, Option.none_or]
      | some v₁ => rw [if_pos (by simp [contains, hf]), hf, Option.some_or, Option.some_or]
    · have hfind : (if t.contains k₁ then t else t.set k₁ v).find? k = t.find? k := by
        split
        · rfl
        · rw [find?_set, if_neg hk]
      have hmem : k ∈ k₁ :: ks ↔ k ∈ ks := by rw [List.mem_cons, or_iff_right (Ne.symm hk)]
      simp only [hfind, hmem]

theorem find?_erase (t : Table κ ν) (k k' : κ) :
    (t.erase k).find? k' = if k = k' then none else t.find? k' := by
  refine Option.ext fun v => ?_
  rw [find?_eq_some, erase, List.mem_filter, ← find?_eq_some, decide_eq_true_eq]
  by_cases hk : k = k'
  · simp [hk]
  · simp [hk, Ne.symm hk]

end Table

/-! ## Related options -/

section

variable {α β : Type} {R : α → β → Prop} {a : α} {b : β}

theorem exists_of_rel_some {o : Option α} (h : Option.Rel R o (some b)) : ∃ a, o = some a ∧ R a b := by
  cases h with
  | some h => exact ⟨_, rfl, h⟩

theorem exists_of_some_rel {o : Option β} (h : Option.Rel R (some a) o) : ∃ b, o = some b ∧ R a b := by
  cases h with
  | some h => exact ⟨_, rfl, h⟩

end

/-! ## Spelling out the wildcard of a state -/

namespace State

/-- A state has the rules of another, those under the wildcard spelled out: under a letter that has no
rule of its own stands what stood under the wildcard, and under the wildcard nothing. -/
structure SpellsOut (letters : List Symbol) (s s' : State) : Prop where
  name : s.name = s'.name
  find? : ∀ trigger, s'.rules.find? trigger = if trigger = Symbol.wildcard then none
    else (s.rules.find? trigger).or
      (if trigger ∈ letters then s.rules.find? Symbol.wildcard else none)

/-- The state with its wildcard spelled out, the letters without rules of their own at the end. -/
def spelled (letters : List Symbol) (s : State) : State :=
  match s.rules.find? Symbol.wildcard with
  | none => s
  | some t => { s with rules := (s.rules.erase Symbol.wildcard).fill t letters }

variable {letters : List Symbol} {s s' : State} {cell trigger : Symbol} {t : Transition}

theorem spellsOut_spelled (hw : Symbol.wildcard ∉ letters) (s : State) :
    SpellsOut letters s (s.spelled letters) := by
  unfold spelled
  cases hs : s.rules.find? Symbol.wildcard with
  | none =>
    refine ⟨rfl, fun trigger => ?_⟩
    by_cases ht : trigger = Symbol.wildcard
    · rw [if_pos ht, ht, hs]
    · rw [if_neg ht, hs, ite_self, Option.or_none]
  | some t =>
    refine ⟨rfl, fun trigger => ?_⟩
    show ((s.rules.erase Symbol.wildcard).fill t letters).find? trigger = _
    rw [Table.find?_fill, Table.find?_erase]
    by_cases ht : trigger = Symbol.wildcard
    · rw [if_pos ht, if_pos ht.symm, ht, if_neg hw, Option.none_or]
    · rw [if_neg ht, if_neg (Ne.symm ht), hs]

theorem name_spelled (letters : List Symbol) (s : State) : (s.spelled letters).name = s.name := by
  unfold spelled
  split <;> rfl

/-- The wildcard stands for a letter at least, if there is one. -/
theorem rules_spelled_ne_nil (hl : cell ∈ letters) (h : s.rules.entries ≠ []) :
    (s.spelled letters).rules.entries ≠ [] := by
  unfold spelled
  cases hs : s.rules.find? Symbol.wildcard with
  | none => exact h
  | some t =>
    have hfill : ((s.rules.erase Symbol.wildcard).fill t letters).find? cell ≠ none := by
      rw [Table.find?_fill, if_pos hl, ne_eq, Option.or_eq_none_iff, not_and]
      exact fun _ => Option.some_ne_none t
    intro hnil
    exact hfill (by rw [Table.find?, hnil, List.lookup_nil])

namespace SpellsOut

/-- What stands under a trigger stood there already, or it stood under the wildcard and the trigger is
a letter. -/
theorem entry (h : SpellsOut letters s s') (he : (trigger, t) ∈ s'.rules.entries) :
    trigger ≠ Symbol.wildcard ∧ ((trigger, t) ∈ s.rules.entries ∨
      trigger ∈ letters ∧ (Symbol.wildcard, t) ∈ s.rules.entries) := by
  have hf := Table.find?_eq_some.mpr he
  rw [h.find?] at hf
  obtain ⟨hne, hf⟩ := Option.ite_none_left_eq_some.mp hf
  refine ⟨hne, ?_⟩
  rcases Option.or_eq_some_iff.mp hf with hf | ⟨-, hf⟩
  · exact Or.inl (Table.find?_eq_some.mp hf)
  · obtain ⟨hl, hf⟩ := Option.ite_none_right_eq_some.mp hf
    exact Or.inr ⟨hl, Table.find?_eq_some.mp hf⟩

/-- If all letters were covered, each has a rule of its own. -/
theorem mem_keys (h : SpellsOut letters s s') (hw : Symbol.wildcard ∉ letters) (hl : cell ∈ letters)
    (hcovered : Symbol.wildcard ∈ s.rules.keys ∨ ∀ l ∈ letters, l ∈ s.rules.keys) :
    cell ∈ s'.rules.keys := by
  have hne : cell ≠ Symbol.wildcard := fun he => hw (he ▸ hl)
  by_contra hnone
  rw [← Table.find?_eq_none, h.find?, if_neg hne, if_pos hl, Option.or_eq_none_iff,
    Table.find?_eq_none, Table.find?_eq_none] at hnone
  rcases hcovered with hwild | hall
  · exact hnone.2 hwild
  · exact hnone.1 (hall cell hl)

/-- The same is looked up for every letter. -/
theorem lookup (h : SpellsOut letters s s') (hw : Symbol.wildcard ∉ letters) (hl : cell ∈ letters) :
    s'.lookup cell = s.lookup cell := by
  have hne : cell ≠ Symbol.wildcard := fun he => hw (he ▸ hl)
  rw [State.lookup, State.lookup, h.find?, h.find?, if_neg hne, if_pos hl, if_pos rfl, Option.or_none]

end SpellsOut

end State

/-! ## Spelling out the wildcards of a program -/

namespace Program

/-- A program has the states of another, the wildcard of each spelled out. -/
def SpellsOut (letters : List Symbol) (p p' : Program) : Prop :=
  ∀ name, Option.Rel (State.SpellsOut letters) (p.find? name) (p'.find? name)

variable {letters : List Symbol} {alphabet : Alphabet} {p p' : Program} {s s' : State}
  {name : String}

namespace SpellsOut

theorem exists_before (h : p.SpellsOut letters p') (hs : p'.find? name = some s') :
    ∃ s, p.find? name = some s ∧ s.SpellsOut letters s' :=
  exists_of_rel_some (hs ▸ h name)

theorem exists_after (h : p.SpellsOut letters p') (hs : p.find? name = some s) :
    ∃ s', p'.find? name = some s' ∧ s.SpellsOut letters s' :=
  exists_of_some_rel (hs ▸ h name)

/-- Where a state goes, it went already. -/
theorem mem_values (h : s.SpellsOut letters s') {t : Transition} (ht : t ∈ s'.rules.values) :
    t ∈ s.rules.values := by
  obtain ⟨e, he, rfl⟩ := List.mem_map.mp ht
  rcases (h.entry he).2 with hs | ⟨-, hs⟩
  · exact List.mem_map.mpr ⟨_, hs, rfl⟩
  · exact List.mem_map.mpr ⟨_, hs, rfl⟩

/-- Nothing new can be reached. -/
theorem reaches (h : p.SpellsOut letters p') (hr : p'.Reaches name) : p.Reaches name := by
  induction hr with
  | start => exact .start
  | step _ hs ht hh ih =>
    obtain ⟨s, hp, hsp⟩ := h.exists_before hs
    exact ih.step hp (mem_values hsp ht) hh

/-- A valid program is valid with its wildcards spelled out. -/
theorem validOver (h : p.SpellsOut alphabet p') (hw : Symbol.wildcard ∉ alphabet)
    (hv : p.ValidOver alphabet) : p'.ValidOver alphabet := by
  have hstate : ∀ s' ∈ p'.states, ∃ s ∈ p.states, s.SpellsOut alphabet s' := by
    intro s' hs'
    obtain ⟨s, hs, hsp⟩ := h.exists_before (find?_eq_some.mpr ⟨hs', rfl⟩)
    exact ⟨s, (find?_eq_some.mp hs).1, hsp⟩
  constructor
  case unreserved =>
    intro s' hs'
    obtain ⟨s, hs, hsp⟩ := hstate s' hs'
    exact hsp.name ▸ hv.unreserved s hs
  case triggers =>
    intro s' hs' e he
    obtain ⟨s, hs, hsp⟩ := hstate s' hs'
    rcases (hsp.entry he).2 with he | ⟨hl, -⟩
    · exact hv.triggers s hs _ he
    · exact Or.inr hl
  case writes =>
    intro s' hs' e he
    obtain ⟨s, hs, hsp⟩ := hstate s' hs'
    rcases (hsp.entry he).2 with he | ⟨-, he⟩
    · exact hv.writes s hs _ he
    · exact hv.writes s hs (Symbol.wildcard, e.2) he
  case start =>
    cases hs : p.find? startName with
    | none => exact absurd hv.start (find?_eq_none.mp hs)
    | some s =>
      obtain ⟨s', hs', -⟩ := h.exists_after hs
      exact mem_names_of_find? hs'
  case covered =>
    intro name hr
    obtain ⟨s, hs, hcovered⟩ := hv.covered name (h.reaches hr)
    obtain ⟨s', hs', hsp⟩ := h.exists_after hs
    exact ⟨s', hs', Or.inr fun l hl => hsp.mem_keys hw hl hcovered⟩

end SpellsOut

/-- The program with the wildcard of each state spelled out. A state that has a rule keeps one, for the
wildcard stands for the blank at least. -/
def spelled (letters : List Symbol) (hblank : Symbol.blank ∈ letters) (p : Program) : Program where
  states := p.states.map (State.spelled letters)
  nodup := by
    rw [List.map_map, List.map_congr_left fun s _ => s.name_spelled letters]
    exact p.nodup
  rules_ne_nil := by
    intro s' hs'
    obtain ⟨s, hs, rfl⟩ := List.mem_map.mp hs'
    exact s.rules_spelled_ne_nil hblank (p.rules_ne_nil s hs)

theorem spellsOut_spelled (hw : Symbol.wildcard ∉ letters) (hblank : Symbol.blank ∈ letters)
    (p : Program) : p.SpellsOut letters (p.spelled letters hblank) := by
  intro name
  have hfind : (p.spelled letters hblank).find? name = (p.find? name).map (State.spelled letters) := by
    rw [find?, find?, spelled, List.find?_map]
    simp only [Function.comp_def, State.name_spelled]
  rw [hfind]
  cases p.find? name with
  | none => exact .none
  | some s => exact .some (s.spellsOut_spelled hw)

end Program

/-! ## Runs on tapes of letters -/

/-- Two configurations, that of a machine's run and that of a run with the wildcards spelled out, differ
in the state only, and there as one that is listed and the same spelled out; the tape holds letters. -/
structure Spelled (m : Machine) (c c' : Configuration) : Prop where
  paired : Paired (State.SpellsOut m.alphabet) c c'
  state : c.state ∈ m.reachable
  cells : ∀ (i : Nat) cell, c.tape[i]? = some cell → cell ∈ m.alphabet

section

variable {m : Machine} {p' : Program} {c c' d : Configuration}

theorem view_of_paired (h : Paired (State.SpellsOut m.alphabet) c c') : c.view = c'.view := by
  unfold Configuration.view
  rw [h.tape, h.head, h.steps, h.state.name]

namespace Spelled

/-- The scanned letter has the same transition. -/
theorem choose (hw : Symbol.wildcard ∉ m.alphabet) (h : Spelled m c c') : c'.choose = c.choose := by
  unfold Configuration.choose
  rw [← h.paired.scanned?]
  cases hs : c.scanned? with
  | none => rfl
  | some cell =>
    obtain ⟨-, hi⟩ := Option.ite_none_right_eq_some.mp hs
    simp only [h.paired.state.lookup hw (h.cells _ cell hi)]

/-- A step ends in the same way, in configurations that differ in the state only. -/
theorem step (hw : Symbol.wildcard ∉ m.alphabet) (hp : m.program.SpellsOut m.alphabet p')
    (h : Spelled m c c') : Paired (State.SpellsOut m.alphabet) (TapeMachine.step m.program c).1
        (TapeMachine.step p' c').1 ∧
      (TapeMachine.step m.program c).2 = (TapeMachine.step p' c').2 := by
  have hc' := h.choose hw
  cases hc : c.choose with
  | error fault =>
    rw [step_of_choose_error hc, step_of_choose_error (hc'.trans hc)]
    exact ⟨h.paired, rfl⟩
  | ok chosen =>
    obtain ⟨cell, t⟩ := chosen
    have hact : Paired (State.SpellsOut m.alphabet) (c.act t) (c'.act t) := h.paired.act rfl
    have hin : (c.act t).inBounds = (c'.act t).inBounds := hact.inBounds
    rw [step_of_choose_ok hc, step_of_choose_ok (hc'.trans hc)]
    rcases follow_cases m.program cell t c with ⟨hb, hf⟩ | ⟨hb, hh, hf⟩ | ⟨hb, hh, hn, hf⟩ |
      ⟨hb, hh, s, hs, hf⟩
    all_goals rw [hf]
    · rw [follow_of_outside cell (hin ▸ hb)]
      exact ⟨hact, rfl⟩
    · rw [follow_of_halting cell (hin ▸ hb) hh]
      exact ⟨hact, rfl⟩
    · have hn' : p'.find? t.next = none := by
        cases hs' : p'.find? t.next with
        | none => rfl
        | some s' =>
          obtain ⟨s, hs, -⟩ := hp.exists_before hs'
          rw [hn] at hs
          cases hs
      rw [follow_of_missing cell (hin ▸ hb) hh hn']
      exact ⟨hact, rfl⟩
    · obtain ⟨s', hs', hsp⟩ := hp.exists_after hs
      rw [follow_of_find? cell (hin ▸ hb) hh hs']
      exact ⟨⟨hact.tape, hact.head, hact.steps, hsp⟩, rfl⟩

/-- A step that leaves the run going leaves the other going too, and only letters on the tape. -/
theorem next (hw : Symbol.wildcard ∉ m.alphabet) (hp : m.program.SpellsOut m.alphabet p')
    (h : Spelled m c c') (hs : TapeMachine.step m.program c = (d, .running)) :
    ∃ d', TapeMachine.step p' c' = (d', .running) ∧ Spelled m d d' := by
  obtain ⟨hpaired, hstatus⟩ := h.step hw hp
  rw [hs] at hpaired hstatus
  have hkeeps : m.Keeps c c := .refl h.state
  obtain ⟨hkept, -⟩ := hkeeps.step hs
  refine ⟨_, Prod.ext rfl hstatus.symm, hpaired, hkept.state, fun i cell hi => ?_⟩
  rcases hkept.cells i cell hi with hl | hi
  · exact hl
  · exact h.cells i cell hi

/-- A run of any length ends in the same way, in configurations that differ in the state only. -/
theorem runFor (hw : Symbol.wildcard ∉ m.alphabet) (hp : m.program.SpellsOut m.alphabet p')
    (h : Spelled m c c') (n : Nat) :
    Paired (State.SpellsOut m.alphabet) (TapeMachine.runFor m.program n c).1
        (TapeMachine.runFor p' n c').1 ∧
      (TapeMachine.runFor m.program n c).2 = (TapeMachine.runFor p' n c').2 := by
  induction n generalizing c c' with
  | zero => exact ⟨h.paired, rfl⟩
  | succ n ih =>
    have hstep := h.step hw hp
    by_cases hs : (TapeMachine.step m.program c).2 = .running
    · have hc : TapeMachine.step m.program c = (_, .running) := Prod.ext rfl hs
      obtain ⟨d', hc', hnext⟩ := h.next hw hp hc
      rw [runFor_succ_of_running n hc, runFor_succ_of_running n hc']
      exact ih hnext
    · rw [runFor_succ_of_not_running n hs, runFor_succ_of_not_running n (hstep.2 ▸ hs)]
      exact hstep

/-- A watcher is shown the same transitions. -/
theorem trace (hw : Symbol.wildcard ∉ m.alphabet) (hp : m.program.SpellsOut m.alphabet p')
    (h : Spelled m c c') (n : Nat) :
    TapeMachine.trace (fun c cell t => (c.view, cell, t)) m.program n c =
      TapeMachine.trace (fun c cell t => (c.view, cell, t)) p' n c' := by
  induction n generalizing c c' with
  | zero => rfl
  | succ n ih =>
    have hc' := h.choose hw
    cases hc : c.choose with
    | error fault => rw [trace_of_choose_error _ hc, trace_of_choose_error _ (hc'.trans hc)]
    | ok chosen =>
      obtain ⟨cell, t⟩ := chosen
      have hview := view_of_paired h.paired
      by_cases hs : (TapeMachine.step m.program c).2 = .running
      · have hstep : TapeMachine.step m.program c = (_, .running) := Prod.ext rfl hs
        obtain ⟨d', hstep', hnext⟩ := h.next hw hp hstep
        rw [trace_of_running n hc hstep, trace_of_running n (hc'.trans hc) hstep', hview, ih hnext]
      · have hs' := (h.step hw hp).2 ▸ hs
        rw [trace_of_not_running n hc hs, trace_of_not_running n (hc'.trans hc) hs', hview]

end Spelled

end

namespace Machine

variable {m : Machine} {source : String} {items : List Json} {tape : Tape} {head : Int} {n : Nat}

/-- Two machines run the same from the start on a tape: they make the same transitions, rules and lines
included, come to configurations that cannot be told apart, and end in the same way, with the same
result or the same error. -/
structure RunsSame [Host] (m m' : Machine) (tape : Tape) (head : Int) (n : Nat) : Prop where
  trace : trace (fun c cell t => (c.view, cell, t)) m.program n (.onTape tape head m.start) =
    TapeMachine.trace (fun c cell t => (c.view, cell, t)) m'.program n (.onTape tape head m'.start)
  view : (runFor m.program n (.onTape tape head m.start)).1.view =
    (runFor m'.program n (.onTape tape head m'.start)).1.view
  status : (runFor m.program n (.onTape tape head m.start)).2 =
    (runFor m'.program n (.onTape tape head m'.start)).2
  outcome : Outcome.ofRun (runFor m.program n (.onTape tape head m.start)) =
    Outcome.ofRun (runFor m'.program n (.onTape tape head m'.start))
  report : ∀ fault : Fault, fault.report (runFor m.program n (.onTape tape head m.start)).1 =
    fault.report (runFor m'.program n (.onTape tape head m'.start)).1

/-- On a tape of letters, a state that has a rule for each letter follows these rules only. -/
theorem find?_of_sight (hcells : ∀ cell ∈ tape, cell ∈ m.alphabet) {x : Sight}
    (hx : x ∈ sights m.program n (.onTape tape head m.start))
    (hall : ∀ l ∈ m.alphabet, l ∈ x.before.state.rules.keys) :
    x.before.state.rules.find? x.cell = some x.transition := by
  obtain ⟨i, hi⟩ := List.getElem?_of_mem hx
  obtain ⟨-, hr, hc⟩ := getElem?_sights.mp hi
  obtain ⟨hs, hl⟩ := Configuration.choose_eq_ok.mp hc
  obtain ⟨-, hcell⟩ := Option.ite_none_right_eq_some.mp hs
  have hkeeps : m.Keeps (.onTape tape head m.start) (.onTape tape head m.start) :=
    .refl start_mem_reachable
  have hmem : x.cell ∈ m.alphabet := by
    rcases (hkeeps.runFor hr).1.cells _ _ hcell with hmem | hfirst
    · exact hmem
    · exact hcells _ (Array.mem_of_getElem? hfirst)
  cases hf : x.before.state.rules.find? x.cell with
  | none => exact absurd (hall _ hmem) (Table.find?_eq_none.mp hf)
  | some t => rw [← hl, State.lookup_of_find? hf]

/-- The wildcard is shorthand. The wildcards of a compiled machine's program can be spelled out over its
alphabet. However that is done, it gives a machine over the same alphabet, which runs the same on every
tape of letters, with the head anywhere and for any number of steps. On such a run a state that has a
rule for each letter never falls back on its wildcard. -/
theorem wildcard_is_shorthand [Host] (hm : compile source items = .ok m) :
    (∃ p', m.program.SpellsOut m.alphabet p') ∧
    (∀ p', m.program.SpellsOut m.alphabet p' → ∃ m', ofProgram p' m.alphabet = .ok m' ∧
      ∀ (tape : Tape) (head : Int), (∀ cell ∈ tape, cell ∈ m.alphabet) → ∀ n,
        m.RunsSame m' tape head n) ∧
    ∀ (tape : Tape) (head : Int), (∀ cell ∈ tape, cell ∈ m.alphabet) → ∀ n,
      ∀ x ∈ sights m.program n (.onTape tape head m.start),
        (∀ l ∈ m.alphabet, l ∈ x.before.state.rules.keys) →
          x.before.state.rules.find? x.cell = some x.transition := by
  obtain ⟨hblank, hletters⟩ := Alphabet.of_ofItems (compile_eq_ok.mp hm).1
  have hw : Symbol.wildcard ∉ m.alphabet := fun h => (hletters _ h).2 rfl
  refine ⟨⟨_, Program.spellsOut_spelled hw hblank m.program⟩, ?_,
    fun tape head hcells n x hx hall => find?_of_sight hcells hx hall⟩
  intro p' hp
  have hvalid := hp.validOver hw m.validOver
  obtain ⟨start, hstart, hspelled⟩ := hp.exists_after m.find?_startName
  have hcheck : p'.check m.alphabet = .ok start :=
    Program.check_eq_ok_iff_validOver.mpr ⟨hstart, hvalid⟩
  refine ⟨⟨m.alphabet, p', start, hcheck⟩, ofProgram_eq_ok.mpr ⟨rfl, rfl⟩, ?_⟩
  intro tape head hcells n
  have hfirst : Spelled m (.onTape tape head m.start) (.onTape tape head start) :=
    ⟨⟨rfl, rfl, rfl, hspelled⟩, start_mem_reachable,
      fun _ cell hi => hcells cell (Array.mem_of_getElem? hi)⟩
  obtain ⟨hpaired, hstatus⟩ := hfirst.runFor hw hp n
  have hview := view_of_paired hpaired
  exact ⟨hfirst.trace hw hp n, hview, hstatus,
    Outcome.ofRun_congr hview (congrArg Status.unplaced hstatus), fun _ => Fault.report_congr hview⟩

section

attribute [local instance] Host.usual

/-- The sample program has wildcards beside its rules for the blank. -/
theorem wildcard_is_shorthand_evens : ∃ m m' p',
    compile Sample.evens (Alphabet.itemsOf Sample.evensLetters) = .ok m ∧
      m.program.SpellsOut m.alphabet p' ∧ ofProgram p' m.alphabet = .ok m' ∧
      m.RunsSame m' #["_", "a", "a", "_"] 0 8 := by
  obtain ⟨m, hm⟩ := Sample.exists_machine Sample.evens_valid
  have hletters : m.alphabet = ["_", "a"] := by
    have h : (Alphabet.ofItems (Alphabet.itemsOf Sample.evensLetters)).toOption =
      some ["_", "a"] := by decide +kernel
    rwa [(compile_eq_ok.mp hm).1, Except.toOption, Option.some.injEq] at h
  obtain ⟨⟨p', hp⟩, hsame, -⟩ := wildcard_is_shorthand hm
  obtain ⟨m', hm', hruns⟩ := hsame p' hp
  refine ⟨m, m', p', hm, hp, hm', hruns _ 0 ?_ 8⟩
  rw [hletters]
  decide

end

end Machine

end TapeMachine
