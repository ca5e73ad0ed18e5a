import Mathlib.Combinatorics.Pigeonhole
import Mathlib.Data.Fintype.BigOperators
import TapeMachine.Proofs.Safety

/-!
# How runs end

A run ends at a step, or never. What a step does depends on the tape, the head and the state, not on
the count of steps. So a run that comes to the same tape, head and state twice goes round forever,
and a run through few enough tapes, heads and states ends soon or never.

## Main statements

* `neverEnds_of_repeated` — a run that comes back to where it was never ends
* `neverEnds_of_within` — a run that is still going when there is nothing new never ends
* `run_of_ended`, `run_of_neverEnds` — following a run to its end is to take as many steps as it has
-/

namespace TapeMachine

variable {p : Program} {c c' : Configuration} {m n : Nat}

/-! ## The end of a run -/

/-- The run takes `n` steps, and the last of them ends it. -/
def EndsAt (p : Program) (c : Configuration) (n : Nat) : Prop :=
  (runFor p n c).2 ≠ .running ∧ ∀ k < n, (runFor p k c).2 = .running

def NeverEnds (p : Program) (c : Configuration) : Prop := ∀ n, (runFor p n c).2 = .running

theorem running_of_le (h : (runFor p n c).2 = .running) (hmn : m ≤ n) :
    (runFor p m c).2 = .running := by
  by_contra hm
  obtain ⟨d, rfl⟩ := Nat.exists_eq_add_of_le hmn
  exact hm (by rw [← runFor_of_not_running d hm, h])

theorem exists_endsAt (h : (runFor p n c).2 ≠ .running) : ∃ k ≤ n, EndsAt p c k := by
  classical
  have hex : ∃ k, (runFor p k c).2 ≠ .running := ⟨n, h⟩
  exact ⟨Nat.find hex, Nat.find_le h, Nat.find_spec hex, fun k hk => not_not.mp (Nat.find_min hex hk)⟩

theorem neverEnds_iff : NeverEnds p c ↔ ∀ n, ¬EndsAt p c n := by
  constructor
  · intro h n he
    exact he.1 (h n)
  · intro h n
    by_contra hn
    obtain ⟨k, -, hk⟩ := exists_endsAt hn
    exact h k hk

/-- More steps than the run has change nothing. -/
theorem EndsAt.runFor_eq (h : EndsAt p c m) (hmn : m ≤ n) : runFor p n c = runFor p m c := by
  obtain ⟨d, rfl⟩ := Nat.exists_eq_add_of_le hmn
  exact runFor_of_not_running d h.1

/-! ## Coming back -/

/-- All that a step depends on: the tape, the head and the state. -/
def Configuration.place (c : Configuration) : Tape × Int × State := (c.tape, c.head, c.state)

/-- A step does the same wherever the place is the same. -/
theorem step_congr (h : c.place = c'.place) :
    (step p c).1.place = (step p c').1.place ∧ (step p c).2 = (step p c').2 := by
  obtain ⟨tape, head, state, k⟩ := c
  obtain ⟨tape', head', state', k'⟩ := c'
  simp only [Configuration.place, Prod.mk.injEq] at h
  obtain ⟨rfl, rfl, rfl⟩ := h
  have hchoose : Configuration.choose ⟨tape, head, state, k⟩ =
      Configuration.choose ⟨tape, head, state, k'⟩ := rfl
  cases hc : Configuration.choose ⟨tape, head, state, k'⟩ with
  | error fault =>
    rw [step_of_choose_error hc, step_of_choose_error (hchoose.trans hc)]
    exact ⟨rfl, rfl⟩
  | ok chosen =>
    obtain ⟨cell, t⟩ := chosen
    rw [step_of_choose_ok hc, step_of_choose_ok (hchoose.trans hc)]
    rcases follow_cases p cell t ⟨tape, head, state, k⟩ with
      ⟨hb, he⟩ | ⟨hb, hh, he⟩ | ⟨hb, hh, hf, he⟩ | ⟨hb, hh, s, hf, he⟩
    · rw [he, follow_of_outside (c := ⟨tape, head, state, k'⟩) cell hb]
      exact ⟨rfl, rfl⟩
    · rw [he, follow_of_halting (c := ⟨tape, head, state, k'⟩) cell hb hh]
      exact ⟨rfl, rfl⟩
    · rw [he, follow_of_missing (c := ⟨tape, head, state, k'⟩) cell hb hh hf]
      exact ⟨rfl, rfl⟩
    · rw [he, follow_of_find? (c := ⟨tape, head, state, k'⟩) cell hb hh hf]
      exact ⟨rfl, rfl⟩

theorem runFor_congr (n : Nat) (h : c.place = c'.place) :
    (runFor p n c).1.place = (runFor p n c').1.place ∧ (runFor p n c).2 = (runFor p n c').2 := by
  induction n generalizing c c' with
  | zero => exact ⟨h, rfl⟩
  | succ n ih =>
    obtain ⟨hplace, hstatus⟩ := step_congr (p := p) h
    by_cases hs : (step p c).2 = .running
    · have hs' : (step p c').2 = .running := hstatus ▸ hs
      rw [runFor_succ_of_running n (Prod.ext rfl hs), runFor_succ_of_running n (Prod.ext rfl hs')]
      exact ih hplace
    · have hs' : (step p c').2 ≠ .running := hstatus ▸ hs
      rw [runFor_succ_of_not_running n hs, runFor_succ_of_not_running n hs']
      exact ⟨hplace, hstatus⟩

/-- A run that comes back to where it was never ends: it would have ended the first time round. -/
theorem neverEnds_of_repeated {i j : Nat} (hij : i < j) (hi : runFor p i c = (c', .running))
    {c'' : Configuration} (hj : runFor p j c = (c'', .running)) (h : c'.place = c''.place) :
    NeverEnds p c := by
  rw [neverEnds_iff]
  intro n he
  have hjn : j < n := by
    by_contra hnj
    have := he.runFor_eq (Nat.le_of_not_lt hnj)
    exact he.1 (by rw [← this, hj])
  obtain ⟨d, rfl⟩ := Nat.exists_eq_add_of_le hjn.le
  -- the end comes `d` steps after the second time, so it came `d` steps after the first
  have hend : (runFor p (i + d) c).2 ≠ .running := by
    have hlast := he.1
    rw [runFor_add, hj] at hlast
    rw [runFor_add, hi]
    exact fun hr => hlast ((runFor_congr d h).2 ▸ hr)
  exact hend (he.2 (i + d) (by omega))

/-! ## Nothing new -/

/-- The configurations with a state, a size of the tape and symbols to choose from. -/
structure Configuration.Within (states : Finset State) (size : Nat) (symbols : Finset Symbol)
    (c : Configuration) : Prop where
  state : c.state ∈ states
  size : c.tape.size = size
  inBounds : c.inBounds = true
  cells : ∀ cell ∈ c.tape, cell ∈ symbols

section

variable {states : Finset State} {size : Nat} {symbols : Finset Symbol}

/-- The state, the head and the cells, each one of finitely many. -/
def Configuration.code (size : Nat) (c : Configuration) : State × Nat × (Fin size → Symbol) :=
  (c.state, c.head.toNat, fun i => c.tape.getD i Symbol.blank)

/-- The codes of the configurations within given states and symbols. -/
def codes (states : Finset State) (size : Nat) (symbols : Finset Symbol) :
    Finset (State × Nat × (Fin size → Symbol)) :=
  states ×ˢ Finset.range size ×ˢ Fintype.piFinset fun _ => symbols

theorem card_codes : (codes states size symbols).card = states.card * (size * symbols.card ^ size) := by
  simp [codes, Fintype.card_piFinset]

namespace Configuration.Within

theorem code_mem (h : c.Within states size symbols) : c.code size ∈ codes states size symbols := by
  have hb := h.inBounds
  simp only [Configuration.inBounds, Bool.and_eq_true, decide_eq_true_eq, h.size] at hb
  simp only [code, codes, Finset.mem_product, Finset.mem_range, Fintype.mem_piFinset]
  refine ⟨h.state, by omega, ?_⟩
  intro i
  have hi : (i : Nat) < c.tape.size := by rw [h.size]; exact i.isLt
  rw [Array.getD_eq_getD_getElem?, Array.getElem?_eq_getElem hi, Option.getD_some]
  exact h.cells _ (Array.getElem_mem hi)

theorem place_eq (h : c.Within states size symbols) (h' : c'.Within states size symbols)
    (hcode : c.code size = c'.code size) : c.place = c'.place := by
  have hb := h.inBounds
  have hb' := h'.inBounds
  simp only [Configuration.inBounds, Bool.and_eq_true, decide_eq_true_eq] at hb hb'
  simp only [code, Prod.mk.injEq] at hcode
  obtain ⟨hstate, hhead, hcells⟩ := hcode
  have htape : c.tape = c'.tape := by
    apply Array.ext (by rw [h.size, h'.size])
    intro i hi hi'
    have hc := congrFun hcells ⟨i, h.size ▸ hi⟩
    simpa only [Array.getD_eq_getD_getElem?, Array.getElem?_eq_getElem hi,
      Array.getElem?_eq_getElem hi', Option.getD_some] using hc
  simp only [place, Prod.mk.injEq]
  exact ⟨htape, by omega, hstate⟩

end Configuration.Within

/-- A run within given states and symbols that has taken as many steps as there are states, places
of the head and tapes has been somewhere twice, and never ends. -/
theorem neverEnds_of_within
    (hw : ∀ k c', runFor p k c = (c', .running) → c'.Within states size symbols)
    (hn : states.card * (size * symbols.card ^ size) ≤ n) (hr : (runFor p n c).2 = .running) :
    NeverEnds p c := by
  have hrun : ∀ k ≤ n, runFor p k c = ((runFor p k c).1, .running) := fun k hk =>
    Prod.ext rfl (running_of_le hr hk)
  have hcard : (codes states size symbols).card < (Finset.range (n + 1)).card := by
    rw [card_codes, Finset.card_range]
    omega
  obtain ⟨i, hi, j, hj, hne, hcode⟩ := Finset.exists_ne_map_eq_of_card_lt_of_maps_to hcard
    (f := fun k => (runFor p k c).1.code size) (by
      intro k hk
      exact (hw k _ (hrun k (by simpa [Nat.lt_succ_iff] using hk))).code_mem)
  have hi' := hrun i (by simpa [Nat.lt_succ_iff] using hi)
  have hj' := hrun j (by simpa [Nat.lt_succ_iff] using hj)
  have hplace := (hw i _ hi').place_eq (hw j _ hj') hcode
  rcases Nat.lt_or_gt_of_ne hne with hij | hji
  · exact neverEnds_of_repeated hij hi' hj' hplace
  · exact neverEnds_of_repeated hji hj' hi' hplace.symm

end

/-! ## Runs to the end -/

/-- The symbols on a tape and those that the rules of a program write. -/
def symbolsOn (p : Program) (tape : Tape) : Finset Symbol :=
  tape.toList.toFinset ∪ ((p.states.flatMap fun s => s.rules.entries).map fun e => e.2.write).toFinset

theorem card_symbolsOn (p : Program) (tape : Tape) :
    (symbolsOn p tape).card ≤ tape.size + p.ruleCount := by
  refine (Finset.card_union_le _ _).trans (Nat.add_le_add ?_ ?_)
  · exact (List.toFinset_card_le _).trans (by simp)
  · exact (List.toFinset_card_le _).trans (by simp [Program.ruleCount])

/-- Within the states of the program and the symbols on a tape and in the rules, a step that leaves
the run going stays. -/
theorem Configuration.Within.step {size : Nat} {tape : Tape}
    (h : c.Within p.states.toFinset size (symbolsOn p tape)) (hs : step p c = (c', .running)) :
    c'.Within p.states.toFinset size (symbolsOn p tape) := by
  obtain ⟨cell, t, s, hc, hb, -, hf, rfl⟩ := of_step_running hs
  obtain ⟨-, e, he, rfl⟩ := of_choose hc
  refine ⟨List.mem_toFinset.mpr (Program.find?_eq_some.mp hf).1, ?_, hb, ?_⟩
  · exact (size_act e.2 c).trans h.size
  · intro cell' hmem
    obtain ⟨i, hi⟩ := Array.getElem?_of_mem hmem
    rcases of_getElem?_act hi with hi | ⟨-, rfl⟩
    · exact h.cells cell' (Array.mem_of_getElem? hi)
    · refine Finset.mem_union_right _ (List.mem_toFinset.mpr ?_)
      exact List.mem_map_of_mem
        (List.mem_flatMap_of_mem (List.mem_toFinset.mp h.state) he)

theorem Configuration.Within.runFor {size : Nat} {tape : Tape}
    (h : c.Within p.states.toFinset size (symbolsOn p tape))
    (hr : runFor p n c = (c', .running)) :
    c'.Within p.states.toFinset size (symbolsOn p tape) := by
  induction n generalizing c with
  | zero =>
    cases hr
    exact h
  | succ n ih =>
    by_cases hs : (TapeMachine.step p c).2 = .running
    · have hc : TapeMachine.step p c = ((TapeMachine.step p c).1, .running) := Prod.ext rfl hs
      rw [runFor_succ_of_running n hc] at hr
      exact ih (h.step hc) hr
    · rw [runFor_succ_of_not_running n hs] at hr
      exact absurd (by rw [hr]) hs

/-- The first step leads to a state of the program, wherever the run began. -/
theorem within_of_step_running (hs : step p c = (c', .running)) :
    c'.Within p.states.toFinset c.tape.size (symbolsOn p c'.tape) := by
  obtain ⟨cell, t, s, hc, hb, -, hf, rfl⟩ := of_step_running hs
  refine ⟨List.mem_toFinset.mpr (Program.find?_eq_some.mp hf).1, Configuration.size_act t c, hb, ?_⟩
  intro cell' hmem
  exact Finset.mem_union_left _ (List.mem_toFinset.mpr (Array.mem_toList_iff.mpr hmem))

/-- The spans cover the first step and one step for each state, place of the head and tape. -/
theorem lt_spanTotal (p : Program) (c : Configuration) :
    p.states.length * (c.tape.size * (c.tape.size + p.ruleCount) ^ c.tape.size) <
      spanTotal (spanCount p c) 1 := by
  have htotal : spanTotal (spanCount p c) 1 + 1 = 2 ^ spanCount p c := by
    rw [spanTotal_add, Nat.one_shiftLeft]
  have hstates : p.states.length + 1 ≤ 2 ^ ((p.states.length + 1).log2 + 1) :=
    Nat.lt_log2_self.le
  have hsize : c.tape.size ≤ 2 ^ (c.tape.size.log2 + 1) := Nat.lt_log2_self.le
  have hcells : (c.tape.size + p.ruleCount) ^ c.tape.size ≤
      2 ^ (c.tape.size * ((c.tape.size + p.ruleCount).log2 + 1)) := by
    rw [Nat.mul_comm, Nat.pow_mul]
    exact Nat.pow_le_pow_left Nat.lt_log2_self.le _
  have hprod : (p.states.length + 1) *
      (c.tape.size * (c.tape.size + p.ruleCount) ^ c.tape.size) * 2 ≤ 2 ^ spanCount p c := by
    unfold spanCount
    rw [Nat.pow_succ, Nat.pow_add, Nat.pow_add, Nat.mul_assoc (2 ^ _) (2 ^ _)]
    exact Nat.mul_le_mul_right 2 (Nat.mul_le_mul hstates (Nat.mul_le_mul hsize hcells))
  have hcount : 2 ^ 1 ≤ 2 ^ spanCount p c :=
    Nat.pow_le_pow_right (by omega) (Nat.le_add_left 1 _)
  generalize c.tape.size * (c.tape.size + p.ruleCount) ^ c.tape.size = places at hprod ⊢
  rw [Nat.succ_mul, Nat.add_mul] at hprod
  rcases Nat.eq_zero_or_pos places with rfl | hpos <;> omega

/-- Following a run to its end is to take as many steps as the spans have together. -/
theorem run_eq_runFor (p : Program) (c : Configuration) :
    run p c = runFor p (spanTotal (spanCount p c) 1) c := runSpans_eq_runFor p _ 1 c

/-- A run that is not over after all spans never ends. -/
theorem neverEnds_of_run_running (h : (run p c).2 = .running) : NeverEnds p c := by
  rw [run_eq_runFor] at h
  obtain ⟨total, ht⟩ : ∃ total, spanTotal (spanCount p c) 1 = total + 1 :=
    Nat.exists_eq_add_one.mpr (Nat.lt_of_le_of_lt (Nat.zero_le _) (lt_spanTotal p c))
  rw [ht] at h
  have hs : step p c = ((step p c).1, .running) :=
    Prod.ext rfl (by
      have h1 := running_of_le h (Nat.le_add_left 1 total)
      by_contra hn
      rw [runFor_succ_of_not_running 0 hn] at h1
      exact hn h1)
  rw [runFor_succ_of_running total hs] at h
  have hw := within_of_step_running hs
  have hcard : p.states.toFinset.card *
      (c.tape.size * (symbolsOn p (step p c).1.tape).card ^ c.tape.size) ≤ total := by
    have hsize : (step p c).1.tape.size = c.tape.size := hw.size
    have hlt := lt_spanTotal p c
    have hsymbols := card_symbolsOn p (step p c).1.tape
    rw [hsize] at hsymbols
    calc _ ≤ p.states.length * (c.tape.size * (c.tape.size + p.ruleCount) ^ c.tape.size) :=
          Nat.mul_le_mul (List.toFinset_card_le _)
            (Nat.mul_le_mul_left _ (Nat.pow_le_pow_left hsymbols _))
      _ ≤ total := by omega
  have hnever := neverEnds_of_within (fun k c' hr => hw.runFor hr) hcard h
  intro n
  cases n with
  | zero => rfl
  | succ n => rw [runFor_succ_of_running n hs, hnever n]

theorem run_of_neverEnds (h : NeverEnds p c) : (run p c).2 = .running := by
  rw [run_eq_runFor]
  exact h _

/-- Following a run to its end is to take all the steps that it has. -/
theorem run_of_ended (h : (runFor p n c).2 ≠ .running) : run p c = runFor p n c := by
  obtain ⟨k, hk, he⟩ := exists_endsAt h
  have hrun : (run p c).2 ≠ .running := fun hr => h (neverEnds_of_run_running hr n)
  rw [he.runFor_eq hk, run_eq_runFor]
  rw [run_eq_runFor] at hrun
  refine he.runFor_eq ?_
  by_contra hlt
  exact hrun (he.2 _ (Nat.lt_of_not_le hlt))

end TapeMachine
