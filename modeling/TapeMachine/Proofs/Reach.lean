import Mathlib.Data.List.Basic
import TapeMachine.Program.Reach

/-!
# The walk lists what can be reached

`Reaches` says which names a run can come to, without a walk: the start, and whatever a rule of a
state that was reached goes to. The walk over the waiting names lists exactly the states of those
names. Soundness carries along that all names seen so far can be reached, completeness that every
state visited so far has its targets visited or waiting.

## Main statements

* `Program.mem_reachableNames_iff` — the walk lists the names that can be reached and have a state
* `Program.mem_reachable_iff` — the same for the states
-/

namespace TapeMachine

namespace Program

variable {p : Program} {visited waiting : List String}

/-! ## What can be reached -/

/-- The names that a run can come to, the halting ones apart. Whether there is a state of a name is
left open. -/
inductive Reaches (p : Program) : String → Prop
  | start : p.Reaches startName
  | step {name : String} {s : State} {t : Transition} : p.Reaches name → p.find? name = some s →
      t ∈ s.rules.values → isHalting t.next = false → p.Reaches t.next

/-- The targets of a state are what its rules go to, the halting names apart. -/
theorem mem_targets {s : State} {name : String} :
    name ∈ s.targets ↔ ∃ t ∈ s.rules.values, t.next = name ∧ isHalting t.next = false := by
  unfold State.targets
  constructor
  · intro h
    obtain ⟨h, hh⟩ := List.mem_filter.mp h
    obtain ⟨t, ht, rfl⟩ := List.mem_map.mp h
    exact ⟨t, ht, rfl, by simpa using hh⟩
  · rintro ⟨t, ht, rfl, hh⟩
    exact List.mem_filter.mpr ⟨List.mem_map_of_mem ht, by simpa using hh⟩

theorem Reaches.target {name target : String} {s : State} (h : p.Reaches name)
    (hs : p.find? name = some s) (ht : target ∈ s.targets) : p.Reaches target := by
  obtain ⟨t, htv, rfl, hh⟩ := mem_targets.mp ht
  exact .step h hs htv hh

/-! ## Soundness -/

/-- If all names seen so far can be reached, so can all that the walk lists. -/
theorem reaches_of_mem_walk (hv : ∀ n ∈ visited, p.Reaches n) (hw : ∀ n ∈ waiting, p.Reaches n) :
    ∀ n ∈ p.walk visited waiting, p.Reaches n := by
  fun_induction walk p visited waiting with
  | case1 => exact hv
  | case2 visited name rest _ ih => exact ih hv fun n hn => hw n (List.mem_cons_of_mem _ hn)
  | case3 visited name rest _ _ ih => exact ih hv fun n hn => hw n (List.mem_cons_of_mem _ hn)
  | case4 visited name rest _ s hs _ ih =>
    have hname : p.Reaches name := hw name List.mem_cons_self
    refine ih ?_ ?_
    · intro n hn
      rcases List.mem_append.mp hn with hn | hn
      · exact hv n hn
      · exact List.mem_singleton.mp hn ▸ hname
    · intro n hn
      rcases List.mem_append.mp hn with hn | hn
      · exact hname.target hs (List.mem_filter.mp hn).1
      · exact hw n (List.mem_cons_of_mem _ hn)

/-! ## Completeness -/

theorem mem_walk_of_mem_visited {name : String} (h : name ∈ visited) :
    name ∈ p.walk visited waiting := (prefix_walk visited waiting).subset h

/-- No waiting name of a state is forgotten. -/
theorem mem_walk_of_mem_waiting {name : String} (h : name ∈ waiting) (hp : name ∈ p.names) :
    name ∈ p.walk visited waiting := by
  fun_induction walk p visited waiting with
  | case1 => simp at h
  | case2 visited first rest hv ih =>
    rcases List.mem_cons.mp h with rfl | h
    · exact mem_walk_of_mem_visited hv
    · exact ih h
  | case3 visited first rest _ hs ih =>
    rcases List.mem_cons.mp h with rfl | h
    · exact absurd hp (find?_eq_none.mp hs)
    · exact ih h
  | case4 visited first rest _ s _ _ ih =>
    rcases List.mem_cons.mp h with rfl | h
    · exact mem_walk_of_mem_visited (by simp)
    · exact ih (List.mem_append_right _ h)

/-- Every state among the visited names goes only to names that are visited or wait, as far as they
have a state. -/
def Covered (p : Program) (visited waiting : List String) : Prop :=
  ∀ name ∈ visited, ∀ s, p.find? name = some s → ∀ target ∈ s.targets, target ∈ p.names →
    target ∈ visited ∨ target ∈ waiting

/-- Passing over a name that is visited or has no state keeps the cover. -/
theorem Covered.pass {name : String} (h : p.Covered visited (name :: waiting))
    (hn : name ∈ visited ∨ name ∉ p.names) : p.Covered visited waiting := by
  intro n hnv s hs target ht hp
  rcases h n hnv s hs target ht hp with hv | hw
  · exact Or.inl hv
  · rcases List.mem_cons.mp hw with rfl | hw
    · exact Or.inl (hn.resolve_right fun hnp => hnp hp)
    · exact Or.inr hw

/-- Visiting a state keeps the cover, for its new targets begin to wait. -/
theorem Covered.visit {name : String} {s : State} (h : p.Covered visited (name :: waiting))
    (hs : p.find? name = some s) :
    p.Covered (visited ++ [name]) (s.newTargets (visited ++ [name]) ++ waiting) := by
  intro n hnv s' hs' target ht hp
  by_cases hv : target ∈ visited ++ [name]
  · exact Or.inl hv
  · right
    rcases List.mem_append.mp hnv with hnv | hnv
    · rcases h n hnv s' hs' target ht hp with hv' | hw
      · exact absurd (List.mem_append_left _ hv') hv
      · rcases List.mem_cons.mp hw with rfl | hw
        · exact absurd (by simp) hv
        · exact List.mem_append_right _ hw
    · -- the state is the one that is visited now
      obtain rfl := List.mem_singleton.mp hnv
      rw [hs] at hs'
      cases hs'
      exact List.mem_append_left _ (List.mem_filter.mpr ⟨ht, by simpa using hv⟩)

/-- The walk ends with every state's targets visited. -/
theorem covered_walk (h : p.Covered visited waiting) :
    p.Covered (p.walk visited waiting) [] := by
  fun_induction walk p visited waiting with
  | case1 => exact h
  | case2 visited name rest hv ih => exact ih (h.pass (Or.inl hv))
  | case3 visited name rest _ hs ih => exact ih (h.pass (Or.inr (find?_eq_none.mp hs)))
  | case4 visited name rest _ s hs _ ih => exact ih (h.visit hs)

/-! ## The names and states that are listed -/

/-- What a state goes to is listed with it. -/
theorem mem_reachableNames_of_mem_targets {name target : String} {s : State}
    (h : name ∈ p.reachableNames) (hs : p.find? name = some s) (ht : target ∈ s.targets)
    (hp : target ∈ p.names) : target ∈ p.reachableNames := by
  have hc : p.Covered [] [startName] := fun n hn => absurd hn (by simp)
  rcases covered_walk hc name h s hs target ht hp with hv | hw
  · exact hv
  · simp at hw

/-- The walk lists the names that can be reached and have a state. -/
theorem mem_reachableNames_iff {name : String} :
    name ∈ p.reachableNames ↔ p.Reaches name ∧ name ∈ p.names := by
  constructor
  · intro h
    refine ⟨reaches_of_mem_walk (by simp) ?_ name h, mem_names_of_mem_reachableNames h⟩
    intro n hn
    exact List.mem_singleton.mp hn ▸ .start
  · rintro ⟨hr, hp⟩
    induction hr with
    | start => exact mem_walk_of_mem_waiting List.mem_cons_self hp
    | step _ hs ht hh ih =>
      exact mem_reachableNames_of_mem_targets (ih (mem_names_of_find? hs)) hs
        (mem_targets.mpr ⟨_, ht, rfl, hh⟩) hp

/-- The states that are listed are those of a name that can be reached. -/
theorem mem_reachable_iff {s : State} : s ∈ p.reachable ↔ s ∈ p.states ∧ p.Reaches s.name := by
  unfold reachable
  rw [List.mem_filterMap]
  constructor
  · rintro ⟨name, hn, hs⟩
    obtain ⟨hmem, hname⟩ := find?_eq_some.mp hs
    subst hname
    exact ⟨hmem, (mem_reachableNames_iff.mp hn).1⟩
  · rintro ⟨hs, hr⟩
    have hf : p.find? s.name = some s := find?_eq_some.mpr ⟨hs, rfl⟩
    exact ⟨s.name, mem_reachableNames_iff.mpr ⟨hr, mem_names_of_find? hf⟩, hf⟩

/-- The states that are listed have the names that are listed. -/
theorem names_reachable (p : Program) : p.reachable.map State.name = p.reachableNames := by
  unfold reachable
  rw [List.map_filterMap]
  have hn : ∀ name ∈ p.reachableNames, (p.find? name).map State.name = some name := by
    intro name hm
    cases hs : p.find? name with
    | none => exact absurd (mem_names_of_mem_reachableNames hm) (find?_eq_none.mp hs)
    | some s => rw [Option.map_some, (find?_eq_some.mp hs).2]
  rw [List.filterMap_congr hn, List.filterMap_some]

end Program

end TapeMachine
