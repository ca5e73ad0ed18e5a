import TapeMachine.Alphabet
import TapeMachine.Program.Reach

/-!
# Valid programs

A program describes a machine over an alphabet if its rules read and write letters of the alphabet
only, no halting state has rules, there is a start state, and every state that a run can enter says
what to do with every letter and goes to states that exist.

## Termination

* `explore` — the measure of the walk over the reachable states

## Main statements

* `Program.explore_eq` — the walk for faults finds the first one on the way, and is never lost
* `State.letterFault_eq_none`, `State.coverFault_eq_none` — what a state without a fault satisfies
* `Program.check_eq_ok` — the start state is the answer for a valid program
-/

namespace TapeMachine

/-! ## One state -/

/-- The least line of a list, counted from a first one. -/
def leastLine (first : Int) (ts : List Transition) : Int := ts.foldl (fun n t => min n t.line) first

namespace State

/-- Where the rules of the state begin. -/
def firstLine (s : State) : Option Int :=
  match s.rules.values with
  | [] => none
  | t :: rest => some (leastLine t.line rest)

/-- The first fault of the letters of a state: it is reserved, or one of its triggers is not in the
alphabet, or one of its writes is not. -/
def letterFault (s : State) (alphabet : Alphabet) : Option SemanticError :=
  if isHalting s.name then some ⟨s.firstLine, .reserved s.name⟩
  else
    -- all triggers are examined before any write
    let trigger := s.rules.entries.findSome? fun (trigger, t) =>
      if trigger ≠ Symbol.wildcard ∧ trigger ∉ alphabet then
        some ⟨some t.line, .unknownTrigger s.name trigger⟩
      else none
    let write := s.rules.entries.findSome? fun (_, t) =>
      if t.writes ∧ t.write ∉ alphabet then some ⟨some t.line, .unknownWrite s.name t.write⟩
      else none
    trigger.or write

/-- The first fault of the reach of a state: without a wildcard, a letter has no rule; or a rule
goes to a state that does not exist. -/
def coverFault (s : State) (p : Program) (alphabet : Alphabet) : Option SemanticError :=
  let letter :=
    if s.hasWildcard then none
    else (alphabet.find? fun l => !s.rules.contains l).map fun l =>
      (⟨none, .missingLetter s.name l⟩ : SemanticError)
  let target := s.rules.values.findSome? fun t =>
    if isHalting t.next || p.has t.next then none
    else some (⟨some t.line, .missingState t.next⟩ : SemanticError)
  letter.or target

theorem letterFault_eq_none {s : State} {alphabet : Alphabet} :
    s.letterFault alphabet = none ↔ isHalting s.name = false ∧
      ∀ e ∈ s.rules.entries, (e.1 = Symbol.wildcard ∨ e.1 ∈ alphabet) ∧
        (e.2.write = Symbol.wildcard ∨ e.2.write ∈ alphabet) := by
  unfold letterFault
  by_cases hh : isHalting s.name = true
  · simp [hh]
  · rw [Bool.not_eq_true] at hh
    simp only [hh, Bool.false_eq_true, if_false, Option.or_eq_none_iff, List.findSome?_eq_none_iff,
      true_and]
    constructor
    · rintro ⟨h1, h2⟩
      refine fun e he => ⟨?_, ?_⟩
      · have := h1 e he
        by_cases hw : e.1 = Symbol.wildcard
        · exact Or.inl hw
        · right; simpa [hw] using this
      · have := h2 e he
        by_cases hw : e.2.write = Symbol.wildcard
        · exact Or.inl hw
        · right; simpa [Transition.writes, hw] using this
    · intro h
      constructor
      · intro e he
        rcases (h e he).1 with hw | hw <;> simp [hw]
      · intro e he
        rcases (h e he).2 with hw | hw <;> simp [Transition.writes, hw]

/-- A state without a cover fault has a rule for every letter and goes to states that exist. -/
theorem coverFault_eq_none {s : State} {p : Program} {alphabet : Alphabet} :
    s.coverFault p alphabet = none ↔
      (s.hasWildcard = true ∨ ∀ l ∈ alphabet, s.rules.contains l = true) ∧
        ∀ t ∈ s.rules.values, isHalting t.next = true ∨ t.next ∈ p.names := by
  unfold coverFault
  simp only [Option.or_eq_none_iff, List.findSome?_eq_none_iff]
  refine and_congr ?_ (forall₂_congr fun t _ => ?_)
  · by_cases hw : s.hasWildcard = true <;> simp [hw]
  · rw [← Program.has_iff]
    by_cases h : (isHalting t.next || p.has t.next) = true <;> simp_all

end State

namespace Program

/-! ## Whole programs -/

/-- The first fault of letters, state by state. -/
def checkLetters (p : Program) (alphabet : Alphabet) : Except SemanticError Unit :=
  match p.states.findSome? fun s => s.letterFault alphabet with
  | some e => .error e
  | none => .ok ()

/-- Why the walk for faults stops before its end. -/
inductive Stop where
  | fault (e : SemanticError)
  /-- A name waits that is not that of a state. -/
  | lost (name : String)

/-- Visits the waiting names depth first, each once, up to the first state with a fault. What has
been visited at the end. -/
def explore (p : Program) (alphabet : Alphabet) (visited waiting : List String) :
    Except Stop (List String) :=
  match waiting with
  | [] => .ok visited
  | name :: rest =>
    if hv : name ∈ visited then p.explore alphabet visited rest
    else match hs : p.find? name with
      | none => .error (.lost name)
      | some s =>
        have := measure_lt rest.length (unvisited_lt (mem_names_of_find? hs) hv)
          (length_newTargets_le (find?_eq_some.mp hs).1 (visited ++ [name]))
        match s.coverFault p alphabet with
        | some e => .error (.fault e)
        | none =>
          p.explore alphabet (visited ++ [name]) (s.newTargets (visited ++ [name]) ++ rest)
termination_by p.unvisited visited * (p.ruleCount + 1) + waiting.length
decreasing_by
  · simp
  · simpa using this

/-- The first fault of the states that the walk visits after those visited already. -/
def faultAfter (p : Program) (alphabet : Alphabet) (visited waiting : List String) :
    Option SemanticError :=
  (((p.walk visited waiting).drop visited.length).filterMap p.find?).findSome? fun s =>
    s.coverFault p alphabet

/-- The faults of a state that is visited now come before those of the states visited later. -/
theorem faultAfter_of_find? {p : Program} {alphabet : Alphabet} {visited rest : List String}
    {name : String} {s : State} (hv : name ∉ visited) (hs : p.find? name = some s) :
    p.faultAfter alphabet visited (name :: rest) = (s.coverFault p alphabet).or
      (p.faultAfter alphabet (visited ++ [name]) (s.newTargets (visited ++ [name]) ++ rest)) := by
  obtain ⟨later, hl⟩ := p.prefix_walk (visited ++ [name]) (s.newTargets (visited ++ [name]) ++ rest)
  unfold faultAfter
  rw [walk_of_find? hv hs, ← hl, List.append_assoc, List.drop_left, ← List.append_assoc,
    List.drop_left]
  rw [List.cons_append, List.nil_append, List.filterMap_cons_some hs, List.findSome?_cons]
  cases s.coverFault p alphabet with
  | none => rfl
  | some e => rfl

/-- A state without a cover fault makes only names of states wait. -/
theorem mem_names_of_mem_newTargets {p : Program} {alphabet : Alphabet} {s : State}
    {visited : List String} (h : s.coverFault p alphabet = none) :
    ∀ n ∈ s.newTargets visited, n ∈ p.names := by
  intro n hn
  obtain ⟨hn, -⟩ := List.mem_filter.mp hn
  obtain ⟨hn, hh⟩ := List.mem_filter.mp hn
  obtain ⟨t, ht, rfl⟩ := List.mem_map.mp hn
  rcases (State.coverFault_eq_none.mp h).2 t ht with hh' | hm
  · simp [hh'] at hh
  · exact hm

/-- If only names of states wait, the walk for faults finds the first one on the way, and is never
lost. -/
theorem explore_eq {p : Program} {alphabet : Alphabet} {visited waiting : List String}
    (h : ∀ n ∈ waiting, n ∈ p.names) :
    p.explore alphabet visited waiting = match p.faultAfter alphabet visited waiting with
      | some e => .error (.fault e)
      | none => .ok (p.walk visited waiting) := by
  fun_induction explore p alphabet visited waiting with
  | case1 visited => simp [faultAfter, walk]
  | case2 visited name rest hv ih =>
    rw [ih fun n hn => h n (List.mem_cons_of_mem _ hn)]
    unfold faultAfter
    rw [walk_of_mem hv]
  | case3 visited name rest hv hs =>
    exact absurd (h name List.mem_cons_self) (find?_eq_none.mp hs)
  | case4 visited name rest hv s hs _ e he =>
    rw [faultAfter_of_find? hv hs, he]
    rfl
  | case5 visited name rest hv s hs _ he ih =>
    rw [ih, faultAfter_of_find? hv hs, he, Option.none_or, walk_of_find? hv hs]
    intro n hn
    rcases List.mem_append.mp hn with hn | hn
    · exact mem_names_of_mem_newTargets he n hn
    · exact h n (List.mem_cons_of_mem _ hn)

/-- The first fault on the way from waiting names of states. The walk for it is never lost. -/
def firstFault (p : Program) (alphabet : Alphabet) (waiting : List String)
    (h : ∀ n ∈ waiting, n ∈ p.names) : Option SemanticError :=
  match he : p.explore alphabet [] waiting with
  | .ok _ => none
  | .error (.fault e) => some e
  | .error (.lost _) => absurd he (by rw [explore_eq h]; split <;> simp)

theorem firstFault_eq {p : Program} {alphabet : Alphabet} {waiting : List String}
    (h : ∀ n ∈ waiting, n ∈ p.names) :
    p.firstFault alphabet waiting h = p.faultAfter alphabet [] waiting := by
  have he := @explore_eq p alphabet [] waiting h
  unfold firstFault
  split
  · next v hv =>
    rw [hv] at he
    cases hf : p.faultAfter alphabet [] waiting with
    | none => rfl
    | some e => simp [hf] at he
  · next e hv =>
    rw [hv] at he
    cases hf : p.faultAfter alphabet [] waiting with
    | none => simp [hf] at he
    | some e' =>
      simp only [hf, Except.error.injEq, Stop.fault.injEq] at he
      rw [he]
  · next name hv =>
    rw [hv] at he
    cases hf : p.faultAfter alphabet [] waiting <;> simp [hf] at he

/-- The start state, unless it is missing or a state that a run can enter has a fault; the states
are examined in the order in which the walk visits them. -/
def checkCover (p : Program) (alphabet : Alphabet) : Except SemanticError State :=
  match hs : p.find? startName with
  | none => .error ⟨none, .noStart⟩
  | some start =>
    match p.firstFault alphabet [startName] (by simpa using mem_names_of_find? hs) with
    | some e => .error e
    | none => .ok start

/-- The cover is examined state by state, as the walk lists them. -/
theorem checkCover_eq (p : Program) (alphabet : Alphabet) :
    p.checkCover alphabet = match p.find? startName with
      | none => .error ⟨none, .noStart⟩
      | some start =>
        match p.reachable.findSome? fun s => s.coverFault p alphabet with
        | some e => .error e
        | none => .ok start := by
  unfold checkCover
  split
  · next hs => simp only [hs]
  · next start hs =>
    simp only [hs, firstFault_eq]
    rfl

/-- The start state of a valid program, or its first fault: letters first, then reach. -/
def check (p : Program) (alphabet : Alphabet) : Except SemanticError State :=
  match p.checkLetters alphabet with
  | .error e => .error e
  | .ok () => p.checkCover alphabet

theorem check_eq_ok {p : Program} {alphabet : Alphabet} {start : State} :
    p.check alphabet = .ok start ↔ p.find? startName = some start ∧
      (∀ s ∈ p.states, s.letterFault alphabet = none) ∧
        ∀ s ∈ p.reachable, s.coverFault p alphabet = none := by
  unfold check checkLetters
  rw [checkCover_eq]
  cases hl : p.states.findSome? fun s => s.letterFault alphabet with
  | some e =>
    simp only [reduceCtorEq, false_iff, not_and]
    intro _ h
    rw [List.findSome?_eq_none_iff.mpr h] at hl
    simp at hl
  | none =>
    rw [List.findSome?_eq_none_iff] at hl
    cases hs : p.find? startName with
    | none => simp
    | some s =>
      cases hc : p.reachable.findSome? fun s => s.coverFault p alphabet with
      | some e =>
        simp only [reduceCtorEq, Option.some.injEq, false_iff, not_and]
        intro _ _ h
        rw [List.findSome?_eq_none_iff.mpr h] at hc
        simp at hc
      | none =>
        rw [List.findSome?_eq_none_iff] at hc
        simp only [Except.ok.injEq, Option.some.injEq]
        exact ⟨fun h => ⟨h, hl, hc⟩, fun h => h.1⟩

end Program

end TapeMachine
