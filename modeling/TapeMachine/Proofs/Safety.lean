import TapeMachine.Evaluation
import TapeMachine.Proofs.Validity

/-!
# What runs keep

The validator looks at a program once, without running it. What it finds holds at every moment of
every run: the state is one that the walk lists, and every cell of the tape holds a letter or what
it held at first. A step keeps this, so a run of any length does, and a step that fails has found
either the edge of the tape or a symbol of the input that is not a letter.

## Main statements

* `Machine.Keeps.step`, `Machine.Keeps.runFor` — a step keeps the invariant, and so does a run
* `Machine.Keeps.fault` — how a step can fail where the invariant holds
-/

namespace TapeMachine

/-! ## What a transition changes -/

namespace Configuration

/-- A cell holds afterwards what it held before, or what was written. -/
theorem of_getElem?_act {t : Transition} {c : Configuration} {i : Nat} {cell : Symbol}
    (h : (c.act t).tape[i]? = some cell) :
    c.tape[i]? = some cell ∨ t.write ≠ Symbol.wildcard ∧ cell = t.write := by
  unfold act at h
  dsimp only at h
  by_cases hw : t.writes = true
  · rw [if_pos hw, Array.getElem?_setIfInBounds] at h
    by_cases hi : c.head.toNat = i
    · rw [if_pos hi] at h
      obtain ⟨-, h⟩ := Option.ite_none_right_eq_some.mp h
      cases h
      exact Or.inr ⟨by simpa [Transition.writes] using hw, rfl⟩
    · rw [if_neg hi] at h
      exact Or.inl h
  · rw [if_neg hw] at h
    exact Or.inl h

/-- A transition is chosen only where the head is on the tape, and it is a rule of the state. -/
theorem of_choose {c : Configuration} {cell : Symbol} {t : Transition}
    (h : c.choose = .ok (cell, t)) : c.inBounds = true ∧ ∃ e ∈ c.state.rules.entries, e.2 = t := by
  obtain ⟨hs, hl⟩ := choose_eq_ok.mp h
  constructor
  · cases hb : c.inBounds with
    | true => rfl
    | false => rw [scanned?_eq_none.mpr hb] at hs; cases hs
  · rcases State.of_lookup hl with he | he
    · exact ⟨_, he, rfl⟩
    · exact ⟨_, he, rfl⟩

end Configuration

namespace Machine

variable {m : Machine} {c₀ c c' : Configuration}

/-! ## The states that are listed -/

/-- Where a listed state goes to, there is a listed state. -/
theorem exists_next {s : State} (hs : s ∈ m.reachable) {e : Symbol × Transition}
    (he : e ∈ s.rules.entries) (hh : isHalting e.2.next = false) :
    ∃ s' ∈ m.reachable, m.program.find? e.2.next = some s' := by
  obtain ⟨hmem, hr⟩ := Program.mem_reachable_iff.mp hs
  have hn : m.program.Reaches e.2.next :=
    hr.step (Program.find?_eq_some.mpr ⟨hmem, rfl⟩) (List.mem_map_of_mem he) hh
  obtain ⟨s', hf, -⟩ := m.validOver.covered _ hn
  obtain ⟨hmem', hname'⟩ := Program.find?_eq_some.mp hf
  exact ⟨s', Program.mem_reachable_iff.mpr ⟨hmem', hname'.symm ▸ hn⟩, hf⟩

/-- A listed state has a rule for every letter. -/
theorem lookup_ne_none {s : State} (hs : s ∈ m.reachable) {l : Symbol} (hl : l ∈ m.alphabet) :
    s.lookup l ≠ none := by
  intro h
  obtain ⟨hmem, hr⟩ := Program.mem_reachable_iff.mp hs
  obtain ⟨s', hf, hcov⟩ := m.validOver.covered _ hr
  rw [Program.find?_eq_some.mpr ⟨hmem, rfl⟩] at hf
  cases hf
  obtain ⟨hno, hnw⟩ := State.lookup_eq_none.mp h
  rcases hcov with hw | hall
  · exact hnw hw
  · exact hno (hall l hl)

theorem start_mem_reachable : m.start ∈ m.reachable := by
  obtain ⟨hmem, hname⟩ := Program.find?_eq_some.mp m.find?_startName
  exact Program.mem_reachable_iff.mpr ⟨hmem, hname.symm ▸ .start⟩

/-! ## The invariant -/

/-- What holds at every moment of a run of a machine, given its first configuration. -/
structure Keeps (m : Machine) (c₀ c : Configuration) : Prop where
  state : c.state ∈ m.reachable
  size : c.tape.size = c₀.tape.size
  cells : ∀ (i : Nat) (cell : Symbol), c.tape[i]? = some cell →
    cell ∈ m.alphabet ∨ c₀.tape[i]? = some cell

theorem Keeps.refl (h : c₀.state ∈ m.reachable) : m.Keeps c₀ c₀ :=
  ⟨h, rfl, fun _ _ hi => Or.inr hi⟩

/-- A run begins in a reachable state. -/
theorem Keeps.of_begin {contents : String} {size head : Int}
    (hb : m.begin contents size head = .ok c₀) : m.Keeps c₀ c₀ := by
  obtain ⟨tape, -, rfl⟩ := begin_eq_ok.mp hb
  exact .refl start_mem_reachable

/-- A step that leaves the run going keeps the invariant, and the head is on the tape. -/
theorem Keeps.step (h : m.Keeps c₀ c) (hs : step m.program c = (c', .running)) :
    m.Keeps c₀ c' ∧ c'.inBounds = true := by
  obtain ⟨cell, t, s, hc, hb, hh, hf, rfl⟩ := of_step_running hs
  obtain ⟨-, e, he, rfl⟩ := Configuration.of_choose hc
  refine ⟨⟨?_, ?_, ?_⟩, hb⟩
  · obtain ⟨s', hs', hf'⟩ := exists_next h.state he hh
    rw [hf] at hf'
    cases hf'
    exact hs'
  · exact (Configuration.size_act e.2 c).trans h.size
  · intro i cell' hi
    rcases Configuration.of_getElem?_act hi with hi | ⟨hw, rfl⟩
    · exact h.cells i cell' hi
    · have hmem := (Program.mem_reachable_iff.mp h.state).1
      exact Or.inl ((m.validOver.writes _ hmem e he).resolve_left hw)

/-- A run of any length that is still going keeps the invariant, and after its first step the head
is on the tape. -/
theorem Keeps.runFor (h : m.Keeps c₀ c) {n : Nat}
    (hr : runFor m.program n c = (c', .running)) :
    m.Keeps c₀ c' ∧ (0 < n → c'.inBounds = true) := by
  induction n generalizing c with
  | zero =>
    cases hr
    exact ⟨h, fun hn => absurd hn (by omega)⟩
  | succ n ih =>
    by_cases hs : (TapeMachine.step m.program c).2 = .running
    · have hc : TapeMachine.step m.program c = ((TapeMachine.step m.program c).1, .running) := by
        rw [← hs]
      rw [runFor_succ_of_running n hc] at hr
      obtain ⟨hk, hb⟩ := h.step hc
      obtain ⟨hk', hb'⟩ := ih hk hr
      refine ⟨hk', ?_⟩
      intro _
      cases n with
      | zero =>
        cases hr
        exact hb
      | succ n => exact hb' (by omega)
    · rw [runFor_succ_of_not_running n hs] at hr
      exact absurd (by rw [hr]) hs

/-- Where the invariant holds, a step fails only at the edge of the tape, or because a cell still
holds what it held at first and that is no letter. -/
theorem Keeps.fault (h : m.Keeps c₀ c) {fault : Fault}
    (hs : TapeMachine.step m.program c = (c', .failed fault)) :
    (fault = .outside ∧ c.inBounds = false) ∨
    (∃ cell, fault = .noTransition cell ∧ c.scanned? = some cell ∧ cell ∉ m.alphabet ∧
      c₀.tape[c.head.toNat]? = some cell) ∨
    ∃ cell t, fault = .fellOff cell t := by
  rcases of_step_failed hs with ⟨hc, -⟩ | ⟨cell, t, hc, -, hf⟩
  · rcases Configuration.choose_eq_error.mp hc with ⟨hn, rfl⟩ | ⟨cell, hsc, hl, rfl⟩
    · exact Or.inl ⟨rfl, Configuration.scanned?_eq_none.mp hn⟩
    · refine Or.inr (Or.inl ⟨cell, rfl, hsc, fun hm => lookup_ne_none h.state hm hl, ?_⟩)
      obtain ⟨-, hi⟩ := Option.ite_none_right_eq_some.mp hsc
      rcases h.cells _ _ hi with hm | hi
      · exact absurd hl (lookup_ne_none h.state hm)
      · exact hi
  · rcases hf with ⟨-, rfl⟩ | ⟨hh, hf, -⟩
    · exact Or.inr (Or.inr ⟨cell, t, rfl⟩)
    · -- a rule of a listed state goes to a state
      obtain ⟨-, e, he, rfl⟩ := Configuration.of_choose hc
      obtain ⟨s', -, hf'⟩ := exists_next h.state he hh
      rw [hf] at hf'
      cases hf'

/-! ## Fresh tapes -/

/-- A cell of a fresh tape is a single character: a blank, or a symbol of the contents. -/
theorem of_getElem?_first {contents : String} {size head : Int}
    (hb : m.begin contents size head = .ok c₀) {i : Nat} {cell : Symbol}
    (hi : c₀.tape[i]? = some cell) :
    cell.length = 1 ∧ (cell = Symbol.blank ∨ cell ∈ symbolsOf contents) := by
  obtain ⟨tape, ht, rfl⟩ := begin_eq_ok.mp hb
  obtain ⟨-, rfl⟩ := Tape.create_eq_ok.mp ht
  have hblank : Symbol.blank.length = 1 := by decide
  rcases Tape.mem_ofCells hi with hm | rfl
  · rcases List.mem_cons.mp hm with rfl | hm
    · exact ⟨hblank, Or.inl rfl⟩
    · exact ⟨length_of_mem_symbolsOf hm, Or.inr hm⟩
  · exact ⟨hblank, Or.inl rfl⟩

end Machine

end TapeMachine
