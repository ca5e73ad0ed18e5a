import TapeMachine.Program

/-!
# Reachable states

The states that a run can enter: the start state and every state that a rule of one of them names as
next, the two halting states apart. They are listed depth first, in the order of the rules.

## Termination

`walk` either passes over one of the waiting names, or visits a state for the first time. Then fewer
states are left, and no more names begin to wait than the program has rules. The measure counts the
waiting names, and for each state that is left one more than the number of rules.

## Main statements

* `Program.nodup_reachableNames` — no state is listed twice
* `Program.mem_names_of_mem_reachableNames` — every name that is listed is that of a state
-/

namespace TapeMachine

/-! ## Names with a meaning -/

/-- The name of the state in which every run begins. -/
def startName : String := "S"

/-- Entering this state ends a run with success. -/
def acceptName : String := "ha"

/-- Entering this state ends a run without success. -/
def rejectName : String := "hr"

/-- Whether a name ends a run; such a name is never that of a state. -/
def isHalting (name : String) : Bool := name = acceptName || name = rejectName

/-- The states that the rules of a state go to, in the order of the rules. -/
def State.targets (s : State) : List String :=
  (s.rules.values.map Transition.next).filter fun name => !isHalting name

/-- The targets that have not been visited. -/
def State.newTargets (s : State) (visited : List String) : List String :=
  s.targets.filter fun name => name ∉ visited

namespace Program

/-! ## The walk -/

theorem mem_names_of_find? {p : Program} {name : String} {s : State}
    (h : p.find? name = some s) : name ∈ p.names :=
  (find?_eq_some.mp h).2 ▸ List.mem_map_of_mem (find?_eq_some.mp h).1

/-- How many names of the program are not among those visited. -/
def unvisited (p : Program) (visited : List String) : Nat :=
  (p.names.filter fun n => n ∉ visited).length

theorem unvisited_lt {p : Program} {visited : List String} {name : String}
    (hp : name ∈ p.names) (hv : name ∉ visited) :
    p.unvisited (visited ++ [name]) < p.unvisited visited := by
  unfold unvisited
  have hsub : (p.names.filter fun n => n ∉ visited ++ [name]) =
      (p.names.filter fun n => n ∉ visited).filter fun n => n ≠ name := by
    rw [List.filter_filter]
    apply List.filter_congr
    intro n _
    by_cases h1 : n ∈ visited <;> by_cases h2 : n = name <;> simp [h1, h2]
  rw [hsub]
  apply List.length_filter_lt_length_iff_exists.mpr
  exact ⟨name, by simp [hp, hv], by simp⟩

/-- A state goes to no more states than the program has rules. -/
theorem length_newTargets_le {p : Program} {s : State} (h : s ∈ p.states)
    (visited : List String) : (s.newTargets visited).length ≤ p.ruleCount := by
  have h1 : (s.newTargets visited).length ≤ s.rules.size := by
    unfold State.newTargets State.targets Table.size
    refine Nat.le_trans (List.length_filter_le _ _) ?_
    refine Nat.le_trans (List.length_filter_le _ _) ?_
    simp [Table.values]
  have h2 : s.rules.size ≤ p.ruleCount := by
    obtain ⟨before, after, he⟩ := List.append_of_mem h
    unfold ruleCount Table.size
    rw [he, List.flatMap_append, List.flatMap_cons]
    simp only [List.length_append]
    omega
  exact Nat.le_trans h1 h2

/-- A first visit lessens the measure. -/
theorem measure_lt {left left' rules targets : Nat} (waiting : Nat) (hl : left' < left)
    (ht : targets ≤ rules) :
    left' * (rules + 1) + (targets + waiting) < left * (rules + 1) + (waiting + 1) := by
  have h : (left' + 1) * (rules + 1) ≤ left * (rules + 1) := Nat.mul_le_mul_right _ hl
  rw [Nat.add_mul] at h
  omega

/-- Visits the waiting names depth first, each once, after those visited already. Names without a
state are passed over. -/
def walk (p : Program) (visited waiting : List String) : List String :=
  match waiting with
  | [] => visited
  | name :: rest =>
    if hv : name ∈ visited then p.walk visited rest
    else match hs : p.find? name with
      | none => p.walk visited rest
      | some s =>
        have := measure_lt rest.length (unvisited_lt (mem_names_of_find? hs) hv)
          (length_newTargets_le (find?_eq_some.mp hs).1 (visited ++ [name]))
        -- a name may wait twice, so it is looked at again when its turn comes
        p.walk (visited ++ [name]) (s.newTargets (visited ++ [name]) ++ rest)
termination_by p.unvisited visited * (p.ruleCount + 1) + waiting.length
decreasing_by
  · simp
  · simp
  · simpa using this

/-- A name that was visited already is passed over. -/
theorem walk_of_mem {p : Program} {visited rest : List String} {name : String}
    (hv : name ∈ visited) : p.walk visited (name :: rest) = p.walk visited rest := by
  rw [walk, dif_pos hv]

/-- A name without a state is passed over. -/
theorem walk_of_find?_none {p : Program} {visited rest : List String} {name : String}
    (hv : name ∉ visited) (hs : p.find? name = none) :
    p.walk visited (name :: rest) = p.walk visited rest := by
  rw [walk, dif_neg hv]
  split
  · rfl
  · next s h =>
    rw [hs] at h
    cases h

/-- A state that was not visited yet is visited, and its new targets come next. -/
theorem walk_of_find? {p : Program} {visited rest : List String} {name : String} {s : State}
    (hv : name ∉ visited) (hs : p.find? name = some s) : p.walk visited (name :: rest) =
      p.walk (visited ++ [name]) (s.newTargets (visited ++ [name]) ++ rest) := by
  rw [walk, dif_neg hv]
  split
  · next h => simp [hs] at h
  · next s' h =>
    rw [hs] at h
    cases h
    rfl

/-- The names of the states that a run can enter, depth first. -/
def reachableNames (p : Program) : List String := p.walk [] [startName]

/-- The states that a run can enter, depth first. -/
def reachable (p : Program) : List State := p.reachableNames.filterMap p.find?

theorem nodup_walk {p : Program} {visited waiting : List String} (h : visited.Nodup) :
    (p.walk visited waiting).Nodup := by
  fun_induction walk p visited waiting with
  | case1 => exact h
  | case2 _ _ _ _ ih => exact ih h
  | case3 _ _ _ _ _ ih => exact ih h
  | case4 visited name rest hv s hs _ ih =>
    exact ih (nodup_append_singleton h hv)

theorem nodup_reachableNames (p : Program) : p.reachableNames.Nodup := nodup_walk List.nodup_nil

theorem mem_names_of_mem_walk {p : Program} {visited waiting : List String}
    (h : ∀ n ∈ visited, n ∈ p.names) : ∀ n ∈ p.walk visited waiting, n ∈ p.names := by
  fun_induction walk p visited waiting with
  | case1 => exact h
  | case2 _ _ _ _ ih => exact ih h
  | case3 _ _ _ _ _ ih => exact ih h
  | case4 visited name rest hv s hs _ ih =>
    apply ih
    intro n hn
    rcases List.mem_append.mp hn with hn | hn
    · exact h n hn
    · exact List.mem_singleton.mp hn ▸ mem_names_of_find? hs

/-- The walk goes on from what it has visited. -/
theorem prefix_walk {p : Program} (visited waiting : List String) :
    visited <+: p.walk visited waiting := by
  fun_induction walk p visited waiting with
  | case1 => exact List.prefix_rfl
  | case2 _ _ _ _ ih => exact ih
  | case3 _ _ _ _ _ ih => exact ih
  | case4 visited name rest _ s _ _ ih => exact (List.prefix_append _ _).trans ih

theorem mem_names_of_mem_reachableNames {p : Program} {name : String}
    (h : name ∈ p.reachableNames) : name ∈ p.names :=
  mem_names_of_mem_walk (by simp) name h

end Program

end TapeMachine
