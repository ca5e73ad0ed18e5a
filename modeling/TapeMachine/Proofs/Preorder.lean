import Mathlib.Order.Bounds.Defs
import TapeMachine.Proofs.Validity

/-!
# The walk is a depth-first preorder

Depth first means: visit a state unless it was visited already, and then what it goes to, in the order
of its rules. `visitAll` says this by recursion, and fails at a name without a state. The walk keeps a
list of waiting names instead. It leaves out targets that were visited when they begin to wait, but not
those that are visited while they wait, and the recursion leaves out nothing. That makes no difference,
for a name that was visited is passed over whenever its turn comes.

## Termination

`visitAll` calls itself on the targets of a state that is visited for the first time, which leaves fewer
states to visit, and on the names that are left, which are fewer while no more states are left. The
names visited by the first call are visited in the second: that they are still there stands in the type
of the result. `walk?` ends as the walk does.

## Main statements

* `Program.walk_append`, `Program.walk_filter` — waiting names in two parts, and without those visited
* `Program.visitAll_eq_walk` — the recursion visits what the walk visits, in the same order
* `Program.walk?_eq_walk` — where no state is missing, the walk comes to no name without a state
* `Machine.explore_eq_ok` — the walk for faults visits the same names
* `Machine.reachable_is_preorder` — what is listed for a machine, and in which order
-/

namespace TapeMachine

namespace Program

variable {p : Program} {visited seen names : List String}

/-! ## Depth first, by recursion -/

theorem unvisited_le {visited after : List String} (p : Program) (h : visited ⊆ after) :
    p.unvisited after ≤ p.unvisited visited := by
  unfold unvisited
  refine (List.monotone_filter_right p.names ?_).length_le
  intro name hname
  simp only [decide_eq_true_eq] at hname ⊢
  exact fun hv => hname (h hv)

/-- Visits names in order, each unless it was visited already, and after a state what it goes to. All
that has been visited then, or nothing if there was a name without a state. -/
def visitAll (p : Program) (visited names : List String) :
    Option { after : List String // visited <+: after } :=
  match names with
  | [] => some ⟨visited, List.prefix_rfl⟩
  | name :: rest =>
    if hv : name ∈ visited then p.visitAll visited rest
    else match hs : p.find? name with
      | none => none
      | some s => do
        have := unvisited_lt (mem_names_of_find? hs) hv
        let ⟨below, hbelow⟩ ← p.visitAll (visited ++ [name]) s.targets
        have := p.unvisited_le hbelow.subset
        let ⟨after, hafter⟩ ← p.visitAll below rest
        return ⟨after, (List.prefix_append _ _).trans (hbelow.trans hafter)⟩
termination_by (p.unvisited visited, names.length)
decreasing_by
  · exact Prod.Lex.right _ (by simp)
  · exact Prod.Lex.left _ _ (by assumption)
  · exact Prod.Lex.left _ _ (by omega)

/-! ## The walk on waiting names -/

/-- Names that wait in two parts are visited part by part. -/
theorem walk_append (p : Program) (visited first rest : List String) :
    p.walk visited (first ++ rest) = p.walk (p.walk visited first) rest := by
  fun_induction walk p visited first with
  | case1 => rfl
  | case2 visited name first hv ih => rw [List.cons_append, walk_of_mem hv, ih]
  | case3 visited name first hv hs ih => rw [List.cons_append, walk_of_find?_none hv hs, ih]
  | case4 visited name first hv s hs _ ih =>
    rw [List.cons_append, walk_of_find? hv hs, ← List.append_assoc, ih]

/-- Waiting names that were visited can be left out. -/
theorem walk_filter (h : seen ⊆ visited) :
    p.walk visited (names.filter fun n => n ∉ seen) = p.walk visited names := by
  fun_induction walk p visited names with
  | case1 => rw [List.filter_nil, walk]
  | case2 visited name rest hv ih =>
    by_cases hn : name ∈ seen
    · rw [List.filter_cons_of_neg (by simpa using hn), ih h]
    · rw [List.filter_cons_of_pos (by simpa using hn), walk_of_mem hv, ih h]
  | case3 visited name rest hv hs ih =>
    have hn : name ∉ seen := fun hn => hv (h hn)
    rw [List.filter_cons_of_pos (by simpa using hn), walk_of_find?_none hv hs, ih h]
  | case4 visited name rest hv s hs _ ih =>
    have hn : name ∉ seen := fun hn => hv (h hn)
    have hlater : seen ⊆ visited ++ [name] := fun n hm => List.mem_append_left _ (h hm)
    -- the targets that begin to wait were not visited, so none of them is left out
    have hnew : (s.newTargets (visited ++ [name])).filter (fun n => n ∉ seen) =
        s.newTargets (visited ++ [name]) := by
      refine List.filter_eq_self.mpr ?_
      intro n hm
      have hfresh := (List.mem_filter.mp hm).2
      simp only [decide_eq_true_eq] at hfresh ⊢
      exact fun hs => hfresh (hlater hs)
    rw [List.filter_cons_of_pos (by simpa using hn), walk_of_find? hv hs, ← ih hlater,
      List.filter_append, hnew]

/-- To visit a state is to visit its targets next, be they visited already or not. -/
theorem walk_of_find?_targets {name : String} {s : State} (hv : name ∉ visited)
    (hs : p.find? name = some s) : p.walk visited (name :: names) =
      p.walk (p.walk (visited ++ [name]) s.targets) names := by
  rw [walk_of_find? hv hs, walk_append, State.newTargets, walk_filter (List.Subset.refl _)]

/-- The recursion visits what the walk visits, in the same order, where each name that can be reached
is that of a state. -/
theorem visitAll_eq_walk (hstates : ∀ name, p.Reaches name → ∃ s, p.find? name = some s)
    (hnames : ∀ n ∈ names, p.Reaches n) :
    (p.visitAll visited names).map Subtype.val = some (p.walk visited names) := by
  fun_induction visitAll p visited names with
  | case1 visited => rw [walk]; rfl
  | case2 visited name rest hv ih =>
    rw [walk_of_mem hv, ih fun n hn => hnames n (List.mem_cons_of_mem _ hn)]
  | case3 visited name rest hv hs =>
    obtain ⟨s, hs'⟩ := hstates name (hnames name List.mem_cons_self)
    rw [hs] at hs'
    cases hs'
  | case4 visited name rest hv s hs _ ih ih' =>
    have hreach : p.Reaches name := hnames name List.mem_cons_self
    obtain ⟨⟨below, hbelow⟩, hinner, he⟩ :=
      Option.map_eq_some_iff.mp (ih fun n hn => hreach.target hs hn)
    obtain ⟨⟨after, hafter⟩, houter, he'⟩ := Option.map_eq_some_iff.mp
      (ih' below hbelow fun n hn => hnames n (List.mem_cons_of_mem _ hn))
    subst he he'
    rw [walk_of_find?_targets hv hs, hinner, Option.bind_eq_bind, Option.bind_some]
    simp only [houter, Option.bind_eq_bind, Option.bind_some, Option.pure_def, Option.map_some]

/-! ## The walk where names can be missing -/

/-- The walk, if no name that has no state comes to its turn. -/
def walk? (p : Program) (visited waiting : List String) : Option (List String) :=
  match waiting with
  | [] => some visited
  | name :: rest =>
    if hv : name ∈ visited then p.walk? visited rest
    else match hs : p.find? name with
      | none => none
      | some s =>
        have := measure_lt rest.length (unvisited_lt (mem_names_of_find? hs) hv)
          (length_newTargets_le (find?_eq_some.mp hs).1 (visited ++ [name]))
        p.walk? (visited ++ [name]) (s.newTargets (visited ++ [name]) ++ rest)
termination_by p.unvisited visited * (p.ruleCount + 1) + waiting.length
decreasing_by
  · simp
  · simpa using this

/-- Where each name that can be reached is that of a state, the walk comes to no other name. -/
theorem walk?_eq_walk (hstates : ∀ name, p.Reaches name → ∃ s, p.find? name = some s)
    (hnames : ∀ n ∈ names, p.Reaches n) : p.walk? visited names = some (p.walk visited names) := by
  fun_induction walk? p visited names with
  | case1 visited => rw [walk]
  | case2 visited name rest hv ih =>
    rw [walk_of_mem hv, ih fun n hn => hnames n (List.mem_cons_of_mem _ hn)]
  | case3 visited name rest hv hs =>
    obtain ⟨s, hs'⟩ := hstates name (hnames name List.mem_cons_self)
    rw [hs] at hs'
    cases hs'
  | case4 visited name rest hv s hs _ ih =>
    rw [walk_of_find? hv hs, ih]
    intro n hn
    rcases List.mem_append.mp hn with hn | hn
    · exact (hnames name List.mem_cons_self).target hs (List.mem_filter.mp hn).1
    · exact hnames n (List.mem_cons_of_mem _ hn)

/-- The names visited depth first from the start, by recursion. -/
def preorder? (p : Program) : Option (List String) :=
  (p.visitAll [] [startName]).map Subtype.val

/-- The sets of names that have the start and, with a state, what it goes to. -/
def Closed (p : Program) (names : Set String) : Prop := startName ∈ names ∧
  ∀ name ∈ names, ∀ s, p.find? name = some s → ∀ target ∈ s.targets, target ∈ names

/-- What can be reached is in every such set. -/
theorem mem_of_reaches {names : Set String} (h : p.Closed names) {name : String}
    (hr : p.Reaches name) : name ∈ names := by
  induction hr with
  | start => exact h.1
  | @step name s t _ hs ht hh ih => exact h.2 name ih s hs t.next (mem_targets.mpr ⟨t, ht, rfl, hh⟩)

theorem closed_reaches (p : Program) : p.Closed {name | p.Reaches name} :=
  ⟨.start, fun _ hn _ hs _ ht => hn.target hs ht⟩

end Program

namespace Machine

variable (m : Machine)

/-- Each name that a run of a machine can come to is that of a state. -/
theorem exists_find?_of_reaches {name : String} (h : m.program.Reaches name) :
    ∃ s, m.program.find? name = some s := by
  obtain ⟨s, hs, -⟩ := m.validOver.covered name h
  exact ⟨s, hs⟩

theorem mem_reachableNames {name : String} :
    name ∈ m.program.reachableNames ↔ m.program.Reaches name := by
  rw [Program.mem_reachableNames_iff]
  refine and_iff_left_of_imp ?_
  intro h
  obtain ⟨s, hs⟩ := m.exists_find?_of_reaches h
  exact Program.mem_names_of_find? hs

/-- The walk for faults of a machine visits all that the walk visits: there is no fault on the way. -/
theorem explore_eq_ok :
    m.program.explore m.alphabet [] [startName] = .ok m.program.reachableNames := by
  have hstart : ∀ n ∈ [startName], n ∈ m.program.names := by
    intro n hn
    rw [List.mem_singleton.mp hn]
    exact Program.mem_names_of_find? m.find?_startName
  have hnone : m.program.faultAfter m.alphabet [] [startName] = none :=
    List.findSome?_eq_none_iff.mpr (Program.check_eq_ok.mp m.valid).2.2
  rw [Program.explore_eq hstart, hnone]
  rfl

/-- The states that are listed for a machine are those that a depth-first recursion from the start
visits, in the same order. The walk that lists them comes to no name without a state, and the walk for
faults visits the same names in the same order. No state is listed twice, and the names are the least
set that has the start and, with a state, what it goes to. -/
theorem reachable_is_preorder :
    let names := m.reachable.map State.name
    m.program.walk? [] [startName] = some names ∧
      (∀ s ∈ m.reachable, m.program.find? s.name = some s) ∧
      m.program.preorder? = some names ∧ names.Nodup ∧
      IsLeast {listed | m.program.Closed listed} {name | name ∈ names} ∧
      m.program.explore m.alphabet [] [startName] = .ok names := by
  have hnames : m.reachable.map State.name = m.program.reachableNames := m.program.names_reachable
  have hstates := fun name => @exists_find?_of_reaches m name
  have hstart : ∀ n ∈ [startName], m.program.Reaches n := by
    intro n hn
    rw [List.mem_singleton.mp hn]
    exact .start
  have hset : {name | name ∈ m.program.reachableNames} = {name | m.program.Reaches name} :=
    Set.ext fun name => m.mem_reachableNames
  simp only [hnames]
  refine ⟨Program.walk?_eq_walk hstates hstart, ?_, Program.visitAll_eq_walk hstates hstart,
    m.program.nodup_reachableNames, ?_, m.explore_eq_ok⟩
  · intro s hs
    exact Program.find?_eq_some.mpr ⟨(Program.mem_reachable_iff.mp hs).1, rfl⟩
  · rw [hset]
    exact ⟨m.program.closed_reaches, fun listed h name hr => Program.mem_of_reaches h hr⟩

end Machine

end TapeMachine
