import TapeMachine.Proofs.Budgets

/-!
# Budgets that decide halting

On a tape of a fixed size a run of a machine has only so many configurations: a state that can be
reached, a place of the head, and in each cell a letter or a character of the input. A run that is
still going after as many steps has been somewhere twice. So it never ends, and a larger budget finds
out nothing more.

## Main statements

* `Machine.Keeps.within` — the configurations of a run on an input
* `Machine.neverEnds_of_enough` — a run that is still going after enough steps never ends
* `Machine.enough_decides` — what a budget of enough steps leaves open stays open
-/

namespace TapeMachine

/-- Only a run that was still going has neither halted nor failed. -/
theorem Evaluation.unfinished_of_toJson {e : Evaluation} {input : String}
    {accepted tape head : Json} {steps : Int}
    (h : e.toJson = entry input false accepted steps tape head .null) :
    ∃ t i n, e.outcome = .unfinished t i n := by
  unfold toJson at h
  cases ho : e.outcome with
  | halted r => simp [ho, entry] at h
  | unfinished t i n => exact ⟨t, i, n, rfl⟩
  | failed message n => simp [ho, entry] at h

namespace Machine

variable {m : Machine} {source contents : String} {items : List Json} {size head : Int}
  {c₀ c : Configuration}

/-! ## The configurations of a run -/

/-- What a cell can hold in a run on an input: the letters and the characters of the input. -/
def symbolsFor (m : Machine) (contents : String) : Finset Symbol :=
  m.alphabet.toFinset ∪ (symbolsOf contents).toFinset

/-- How many configurations there are for a run on an input: a state that can be reached, a place of
the head, and a symbol in each cell. -/
def enough (m : Machine) (contents : String) (size : Int) : Nat :=
  m.reachable.length * size.toNat * (m.symbolsFor contents).card ^ size.toNat

/-- A compiled machine knows the blank, so a fresh tape holds nothing else than letters and characters
of the input. -/
theorem mem_symbolsFor_of_first (hm : compile source items = .ok m)
    (hb : m.begin contents size head = .ok c₀) {i : Nat} {cell : Symbol}
    (hi : c₀.tape[i]? = some cell) : cell ∈ m.symbolsFor contents := by
  have hblank : Symbol.blank ∈ m.alphabet := (Alphabet.of_ofItems (compile_eq_ok.mp hm).1).1
  rw [symbolsFor, Finset.mem_union, List.mem_toFinset, List.mem_toFinset]
  rcases (of_getElem?_first hb hi).2 with rfl | hs
  · exact Or.inl hblank
  · exact Or.inr hs

/-- What keeps the invariant of a run, with the head on the tape, is one of its configurations. -/
theorem Keeps.within (hm : compile source items = .ok m)
    (hb : m.begin contents size head = .ok c₀) (h : m.Keeps c₀ c) (hon : c.inBounds = true) :
    c.Within m.reachable.toFinset size.toNat (m.symbolsFor contents) := by
  have hsize : (c₀.tape.size : Int) = size := by
    obtain ⟨tape, ht, rfl⟩ := begin_eq_ok.mp hb
    exact Tape.size_of_create ht
  refine ⟨List.mem_toFinset.mpr h.state, by rw [h.size]; omega, hon, ?_⟩
  intro cell hmem
  obtain ⟨i, hi⟩ := Array.getElem?_of_mem hmem
  rcases h.cells i cell hi with hl | hi
  · exact Finset.mem_union_left _ (List.mem_toFinset.mpr hl)
  · exact mem_symbolsFor_of_first hm hb hi

/-- The head of a run begins on the tape if it is put there. -/
theorem inBounds_of_begin (hb : m.begin contents size head = .ok c₀) (h0 : 0 ≤ head)
    (hhead : head < size) : c₀.inBounds = true := by
  obtain ⟨tape, ht, rfl⟩ := begin_eq_ok.mp hb
  have hsize := Tape.size_of_create ht
  simp only [Configuration.inBounds, Bool.and_eq_true, decide_eq_true_eq]
  exact ⟨h0, by omega⟩

/-- All configurations of a run that is going are among those counted. -/
theorem within_of_runFor (hm : compile source items = .ok m)
    (hb : m.begin contents size head = .ok c₀) (hon : c₀.inBounds = true) {n : Nat}
    (hr : runFor m.program n c₀ = (c, .running)) :
    c.Within m.reachable.toFinset size.toNat (m.symbolsFor contents) := by
  obtain ⟨hk, hin⟩ := (Keeps.of_begin hb).runFor hr
  refine hk.within hm hb ?_
  cases n with
  | zero =>
    cases hr
    exact hon
  | succ n => exact hin (by omega)

/-! ## Enough steps -/

/-- A run that is still going after enough steps has come back to where it was, and never ends. -/
theorem neverEnds_of_enough (hm : compile source items = .ok m)
    (hb : m.begin contents size head = .ok c₀) (hon : c₀.inBounds = true) {n : Nat}
    (hn : m.enough contents size ≤ n) (hr : (runFor m.program n c₀).2 = .running) :
    NeverEnds m.program c₀ := by
  refine neverEnds_of_within (fun k c' hk => within_of_runFor hm hb hon hk) (Nat.le_trans ?_ hn) hr
  calc m.reachable.toFinset.card * (size.toNat * (m.symbolsFor contents).card ^ size.toNat)
    _ ≤ m.reachable.length * (size.toNat * (m.symbolsFor contents).card ^ size.toNat) :=
      Nat.mul_le_mul_right _ (List.toFinset_card_le _)
    _ = m.enough contents size := by rw [enough, Nat.mul_assoc]

/-- A run without an end is going whatever the budget. -/
theorem runBounded_of_neverEnds {p : Program} (h : NeverEnds p c₀) (budget : Int) :
    (runBounded p budget c₀).2 = .running := h _

/-- The record of a run without an end says for every budget that it is still going. -/
theorem tryEvaluate_of_neverEnds [Host] (hsize : size ≤ Host.mostCells)
    (hb : m.begin contents size 0 = .ok c₀) (h : NeverEnds m.program c₀) (budget : Int) :
    ∃ steps tape place, (m.tryEvaluate contents size budget).map Evaluation.toJson =
      .ok (Evaluation.entry contents false .null steps tape place .null) := by
  have hgoing : ∀ n, EndsAt m.program c₀ n → budget < n := fun n he =>
    absurd he (neverEnds_iff.mp h n)
  obtain ⟨last, -, -, heval⟩ := evaluate_of_running hb hgoing
  rw [tryEvaluate_of_le hsize, heval]
  exact ⟨_, _, _, rfl⟩

/-- If a record with a budget of enough steps says that the run neither halted nor failed, the run
never ends. -/
theorem neverEnds_of_record [Host] (hm : compile source items = .ok m) (hsize : size ≤ Host.mostCells)
    (hb : m.begin contents size 0 = .ok c₀) {budget : Int}
    (hn : m.enough contents size ≤ budget) {accepted tape place : Json} {steps : Int}
    (h : (m.tryEvaluate contents size budget).map Evaluation.toJson =
      .ok (Evaluation.entry contents false accepted steps tape place .null)) :
    NeverEnds m.program c₀ := by
  rw [tryEvaluate_of_le hsize, evaluate_of_begin hb] at h
  obtain ⟨t, i, n, ho⟩ := Evaluation.unfinished_of_toJson (Except.ok.inj h)
  have hgoing : (runFor m.program budget.toNat c₀).2 = .running := by
    by_contra hend
    exact Outcome.ofRun_over.mpr hend t i n ho
  have hpos : 0 < size := by
    obtain ⟨tape, ht, -⟩ := begin_eq_ok.mp hb
    have hfits := (Tape.create_eq_ok.mp ht).1
    omega
  exact neverEnds_of_enough hm hb (inBounds_of_begin hb le_rfl hpos) (by omega) hgoing

/-- Let a run of a compiled machine begin with the head on the tape. If it is still going after as
many steps as there are configurations, it is still going whatever the budget, and following it to
its end finds that it never ends. So if the record of the input with such a budget or a larger one
says that the run neither halted nor failed, the record with any other budget says so too. -/
theorem enough_decides [Host] (hm : compile source items = .ok m)
    (hp : m.prepare contents size head = .ok c₀) (h0 : 0 ≤ head) (hhead : head < size) :
    ((runBounded m.program (m.enough contents size) c₀).2 = .running →
      (∀ budget, (runBounded m.program budget c₀).2 = .running) ∧
        ∃ c, m.run contents size head = .ok (c, .running)) ∧
    ∀ budget : Int, m.enough contents size ≤ budget →
      (∃ accepted steps tape place,
        (m.tryEvaluate contents size budget).map Evaluation.toJson =
          .ok (Evaluation.entry contents false accepted steps tape place .null)) →
      (∀ budget', ∃ steps tape place,
        (m.tryEvaluate contents size budget').map Evaluation.toJson =
          .ok (Evaluation.entry contents false .null steps tape place .null)) ∧
        ∃ c, m.run contents size 0 = .ok (c, .running) := by
  obtain ⟨hsize, hb⟩ := prepare_eq_ok.mp hp
  constructor
  · intro hr
    have hsteps : c₀.steps = 0 := by
      obtain ⟨tape, -, rfl⟩ := begin_eq_ok.mp hb
      rfl
    have hnever : NeverEnds m.program c₀ :=
      neverEnds_of_enough hm hb (inBounds_of_begin hb h0 hhead) (by rw [hsteps]; omega) hr
    exact ⟨runBounded_of_neverEnds hnever, run_eq_of_neverEnds hsize hb hnever⟩
  · rintro budget hn ⟨accepted, steps, tape, place, hrecord⟩
    -- the tape is the same wherever the head begins
    obtain ⟨c₁, hb₁⟩ : ∃ c₁, m.begin contents size 0 = .ok c₁ := by
      obtain ⟨t, ht, -⟩ := begin_eq_ok.mp hb
      exact ⟨_, begin_eq_ok.mpr ⟨t, ht, rfl⟩⟩
    have hnever := neverEnds_of_record hm hsize hb₁ hn hrecord
    exact ⟨tryEvaluate_of_neverEnds hsize hb₁ hnever, run_eq_of_neverEnds hsize hb₁ hnever⟩

section

attribute [local instance] Host.usual

/-- Whether there are 48 configurations for an input in three cells, and the run is still going after
as many steps. -/
def goesBackAndForth (m : Machine) : Bool :=
  match m.prepare "a" 3 0 with
  | .ok c₀ => m.enough "a" 3 = 48 ∧ (runBounded m.program 48 c₀).2 = .running
  | .error _ => false

/-- A machine of two states that goes to the right and to the left forever. -/
theorem enough_decides_back_and_forth : ∃ m c₀,
    compile "S,* -> A,*,r\nA,* -> S,*,l" (Alphabet.itemsOf "a") = .ok m ∧
      m.prepare "a" 3 0 = .ok c₀ ∧ (0 : Int) < 3 ∧
      (runBounded m.program (m.enough "a" 3) c₀).2 = .running ∧
      ∀ budget, (runBounded m.program budget c₀).2 = .running := by
  obtain ⟨m, hm, htest⟩ : ∃ m,
      compile "S,* -> A,*,r\nA,* -> S,*,l" (Alphabet.itemsOf "a") = .ok m ∧
        goesBackAndForth m = true := Sample.exists_machine_with (by decide +kernel)
  unfold goesBackAndForth at htest
  split at htest
  · next c₀ hp =>
    obtain ⟨henough, hr⟩ := of_decide_eq_true htest
    have hgoing : (runBounded m.program (m.enough "a" 3) c₀).2 = .running := by
      rw [henough]
      exact hr
    exact ⟨m, c₀, hm, hp, by decide, hgoing,
      ((enough_decides hm hp (by decide) (by decide)).1 hgoing).1⟩
  · cases htest

end

end Machine

end TapeMachine
