import TapeMachine.Machine
import TapeMachine.Proofs.Reach

/-!
# The validator decides validity

`ValidOver` says without a walk when a program describes a machine over an alphabet. The validator
answers with the start state exactly then. Otherwise it answers with an error of meaning: its walk
never comes to a name without a state, and the error of a reserved state has a line, since no state
is without a rule.

## Main statements

* `Program.check_eq_ok_iff_validOver` — the start state is the answer exactly for a valid program
* `Program.explore_ne_lost` — the walk for faults is never lost
* `Program.check_decides` — the answers of the validator, valid or not
-/

namespace TapeMachine

theorem isHalting_eq_false {name : String} :
    isHalting name = false ↔ name ≠ acceptName ∧ name ≠ rejectName := by
  simp [isHalting]

namespace Program

variable {p : Program} {alphabet : Alphabet}

/-! ## Validity without a walk -/

/-- A program describes a machine over an alphabet. -/
structure ValidOver (p : Program) (alphabet : Alphabet) : Prop where
  /-- No state has the name of a halting state. -/
  unreserved : ∀ s ∈ p.states, s.name ≠ acceptName ∧ s.name ≠ rejectName
  /-- Every trigger, be its state reachable or not, is the wildcard or a letter. -/
  triggers : ∀ s ∈ p.states, ∀ e ∈ s.rules.entries, e.1 = Symbol.wildcard ∨ e.1 ∈ alphabet
  /-- Every write, be its state reachable or not, is the wildcard or a letter. -/
  writes : ∀ s ∈ p.states, ∀ e ∈ s.rules.entries,
    e.2.write = Symbol.wildcard ∨ e.2.write ∈ alphabet
  start : startName ∈ p.names
  /-- Every name that can be reached is that of a state with a rule for every letter. -/
  covered : ∀ name, p.Reaches name → ∃ s, p.find? name = some s ∧
    (Symbol.wildcard ∈ s.rules.keys ∨ ∀ l ∈ alphabet, l ∈ s.rules.keys)

/-- Where no state has a letter fault, and none that is listed a cover fault, every name that can be
reached is that of a state. -/
theorem exists_find?_of_reaches {start : State} (hs : p.find? startName = some start)
    (hc : ∀ s ∈ p.reachable, s.coverFault p alphabet = none) {name : String}
    (hr : p.Reaches name) : ∃ s, p.find? name = some s := by
  induction hr with
  | start => exact ⟨start, hs⟩
  | @step name s t hr hf ht hh _ =>
    obtain ⟨hmem, hname⟩ := find?_eq_some.mp hf
    have hsr : s ∈ p.reachable := mem_reachable_iff.mpr ⟨hmem, hname.symm ▸ hr⟩
    rcases (State.coverFault_eq_none.mp (hc s hsr)).2 t ht with hh' | hm
    · simp [hh] at hh'
    · cases hf' : p.find? t.next with
      | none => exact absurd hm (find?_eq_none.mp hf')
      | some s' => exact ⟨s', rfl⟩

/-- A state covers the letters if it has a wildcard or a rule for each. -/
theorem covers_iff {s : State} :
    (s.hasWildcard = true ∨ ∀ l ∈ alphabet, s.rules.contains l = true) ↔
      (Symbol.wildcard ∈ s.rules.keys ∨ ∀ l ∈ alphabet, l ∈ s.rules.keys) := by
  unfold State.hasWildcard
  simp only [Table.contains_iff]

/-- The start state is the answer exactly for a valid program. -/
theorem check_eq_ok_iff_validOver {start : State} :
    p.check alphabet = .ok start ↔ p.find? startName = some start ∧ p.ValidOver alphabet := by
  rw [check_eq_ok]
  refine and_congr_right ?_
  intro hs
  constructor
  · rintro ⟨hl, hc⟩
    refine ⟨?_, ?_, ?_, mem_names_of_find? hs, ?_⟩
    · intro s hm
      exact isHalting_eq_false.mp (State.letterFault_eq_none.mp (hl s hm)).1
    · intro s hm e he
      exact ((State.letterFault_eq_none.mp (hl s hm)).2 e he).1
    · intro s hm e he
      exact ((State.letterFault_eq_none.mp (hl s hm)).2 e he).2
    · intro name hr
      obtain ⟨s, hf⟩ := exists_find?_of_reaches hs hc hr
      obtain ⟨hmem, hname⟩ := find?_eq_some.mp hf
      have hsr : s ∈ p.reachable := mem_reachable_iff.mpr ⟨hmem, hname.symm ▸ hr⟩
      exact ⟨s, hf, covers_iff.mp (State.coverFault_eq_none.mp (hc s hsr)).1⟩
  · intro hv
    constructor
    · intro s hm
      exact State.letterFault_eq_none.mpr ⟨isHalting_eq_false.mpr (hv.unreserved s hm),
        fun e he => ⟨hv.triggers s hm e he, hv.writes s hm e he⟩⟩
    · intro s hsr
      obtain ⟨hmem, hr⟩ := mem_reachable_iff.mp hsr
      have hf : p.find? s.name = some s := find?_eq_some.mpr ⟨hmem, rfl⟩
      refine State.coverFault_eq_none.mpr ⟨?_, ?_⟩
      · obtain ⟨s', hf', hcov⟩ := hv.covered s.name hr
        rw [hf] at hf'
        cases hf'
        exact covers_iff.mpr hcov
      · intro t ht
        by_cases hh : isHalting t.next = true
        · exact Or.inl hh
        · obtain ⟨s', hf', -⟩ := hv.covered t.next (hr.step hf ht (by simpa using hh))
          exact Or.inr (mem_names_of_find? hf')

/-! ## The errors -/

/-- If only names of states wait, the walk for faults is never lost. -/
theorem explore_ne_lost {visited waiting : List String} (h : ∀ n ∈ waiting, n ∈ p.names)
    (name : String) : p.explore alphabet visited waiting ≠ .error (.lost name) := by
  rw [explore_eq h]
  split <;> simp

/-- An error of a state's letters has a line, if the state has a rule. -/
theorem line_of_letterFault {s : State} (hne : s.rules.entries ≠ []) {e : SemanticError}
    (h : s.letterFault alphabet = some e) : ∃ line, e.line = some line := by
  unfold State.letterFault at h
  by_cases hh : isHalting s.name = true
  · rw [if_pos hh, Option.some.injEq] at h
    subst h
    cases hr : s.rules.values with
    | nil => exact absurd (List.map_eq_nil_iff.mp hr) hne
    | cons t rest => exact ⟨leastLine t.line rest, by simp [State.firstLine, hr]⟩
  · rw [if_neg hh] at h
    rcases Option.or_eq_some_iff.mp h with h | ⟨-, h⟩
    · obtain ⟨x, -, hx⟩ := List.exists_of_findSome?_eq_some h
      obtain ⟨-, hx⟩ := Option.ite_none_right_eq_some.mp hx
      cases hx
      exact ⟨_, rfl⟩
    · obtain ⟨x, -, hx⟩ := List.exists_of_findSome?_eq_some h
      obtain ⟨-, hx⟩ := Option.ite_none_right_eq_some.mp hx
      cases hx
      exact ⟨_, rfl⟩

/-- No state is reserved because of its reach. -/
theorem fault_of_coverFault {s : State} {e : SemanticError}
    (h : s.coverFault p alphabet = some e) (name : String) : e.fault ≠ .reserved name := by
  unfold State.coverFault at h
  rcases Option.or_eq_some_iff.mp h with h | ⟨-, h⟩
  · obtain ⟨-, h⟩ := Option.ite_none_left_eq_some.mp h
    obtain ⟨l, -, rfl⟩ := Option.map_eq_some_iff.mp h
    simp
  · obtain ⟨t, -, ht⟩ := List.exists_of_findSome?_eq_some h
    obtain ⟨-, ht⟩ := Option.ite_none_left_eq_some.mp ht
    cases ht
    simp

/-- The error of a reserved state has a line: the state has a rule. -/
theorem line_of_check_reserved {e : SemanticError} (h : p.check alphabet = .error e)
    {name : String} (hf : e.fault = .reserved name) : ∃ line, e.line = some line := by
  unfold check checkLetters at h
  cases hl : p.states.findSome? fun s => s.letterFault alphabet with
  | some e' =>
    simp only [hl, Except.error.injEq] at h
    subst h
    obtain ⟨s, hs, he⟩ := List.exists_of_findSome?_eq_some hl
    exact line_of_letterFault (p.rules_ne_nil s hs) he
  | none =>
    simp only [hl] at h
    rw [checkCover_eq] at h
    cases hs : p.find? startName with
    | none =>
      simp only [hs, Except.error.injEq] at h
      subst h
      simp at hf
    | some start =>
      cases hc : p.reachable.findSome? fun s => s.coverFault p alphabet with
      | none => simp [hs, hc] at h
      | some e' =>
        simp only [hs, hc, Except.error.injEq] at h
        subst h
        obtain ⟨s, -, he⟩ := List.exists_of_findSome?_eq_some hc
        exact absurd hf (fault_of_coverFault he name)

/-! ## The decision -/

/-- The validator answers with the start state exactly for a valid program, and with an error of
meaning for every other: a reserved state's error has a line, and the walk is never lost. -/
theorem check_decides (p : Program) (alphabet : Alphabet) :
    (∀ start, p.check alphabet = .ok start ↔
      p.find? startName = some start ∧ p.ValidOver alphabet) ∧
    (¬p.ValidOver alphabet → ∃ e, p.check alphabet = .error e ∧
      ∀ name, e.fault = .reserved name → ∃ line, e.line = some line) ∧
    (startName ∈ p.names → ∀ name, p.explore alphabet [] [startName] ≠ .error (.lost name)) := by
  refine ⟨fun start => check_eq_ok_iff_validOver, ?_, ?_⟩
  · intro hv
    cases hc : p.check alphabet with
    | ok start => exact absurd (check_eq_ok_iff_validOver.mp hc).2 hv
    | error e => exact ⟨e, rfl, fun name hf => line_of_check_reserved hc hf⟩
  · intro hs
    exact explore_ne_lost (by simpa using hs)

end Program

/-- The program of a machine is valid over its alphabet. -/
theorem Machine.validOver (m : Machine) : m.program.ValidOver m.alphabet :=
  (Program.check_eq_ok_iff_validOver.mp m.valid).2

end TapeMachine
