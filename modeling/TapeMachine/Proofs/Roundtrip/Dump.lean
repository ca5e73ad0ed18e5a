import TapeMachine.Proofs.LockStep
import TapeMachine.Proofs.Roundtrip.Program
import TapeMachine.Proofs.Safety
import TapeMachine.Sample

/-!
# A dumped program is the machine again

The dump of a machine is the source of the states that a run can enter. Read again it gives these
states and no others, in the order of the walk. So the walk over the new program is the old one, the
new program is valid, since all that validity asks of it was asked of the old program, and the two
programs run in lock-step.

The notion that carries this is `SameOutlines`: as far as names can be reached, the two programs
have the same states but for the lines of the rules.

## Main statements

* `SameOutlines.reaches_iff`, `SameOutlines.walk` — the same names are reached, in the same order
* `SameOutlines.inLockStep` — the programs run in lock-step
* `Machine.dump_recompiles` — a machine's dump compiles to an equivalent machine
-/

namespace TapeMachine

/-! ## What an outline tells -/

namespace State

variable {s s' : State}

theorem name_eq_of_outline (h : s.outline = s'.outline) : s.name = s'.name := congrArg Prod.fst h

theorem keys_eq_of_outline (h : s.outline = s'.outline) : s.rules.keys = s'.rules.keys := by
  have hk : ∀ x : State, x.rules.keys = x.outline.2.map Prod.fst := by
    intro x
    rw [outline, List.map_map]
    rfl
  rw [hk, hk, h]

theorem targets_eq_of_outline (h : s.outline = s'.outline) : s.targets = s'.targets := by
  have ht : ∀ x : State, x.targets =
      (x.outline.2.map fun e => e.2.1).filter fun name => !isHalting name := by
    intro x
    rw [targets, Table.values, outline, List.map_map, List.map_map]
    rfl
  rw [ht, ht, h]

theorem source_eq_of_outline (h : s.outline = s'.outline) : s.source = s'.source := by
  have hs : ∀ x : State, x.source = String.join (x.outline.2.map fun e =>
      Rule.text ⟨x.outline.1, e.1, ⟨e.2.1, e.2.2.1, e.2.2.2, 0⟩⟩ ++ "\n") := by
    intro x
    rw [source, outline, List.map_map]
    rfl
  rw [hs, hs, h]

theorem lookup_eq_of_outline (h : s.outline = s'.outline) (cell : Symbol) :
    (s.lookup cell).map Transition.action = (s'.lookup cell).map Transition.action := by
  have hf : ∀ (x : State) k, (x.rules.find? k).map Transition.action = x.outline.2.lookup k := by
    intro x k
    exact Table.map_find? Transition.action k
  rw [lookup, lookup, Option.map_or, Option.map_or, hf, hf, hf, hf, h]

/-- What outlines tell of each state they tell of a list of states. -/
theorem map_eq_of_outlines {α : Type} {f : State → α}
    (hf : ∀ {s s' : State}, s.outline = s'.outline → f s = f s') :
    ∀ {states states' : List State}, states.map outline = states'.map outline →
      states.map f = states'.map f
  | [], [], _ => rfl
  | [], s' :: states', h => by cases h
  | s :: states, [], h => by cases h
  | s :: states, s' :: states', h => by
    rw [List.map_cons, List.map_cons, List.cons.injEq] at h
    rw [List.map_cons, List.map_cons, hf h.1, map_eq_of_outlines hf h.2]

theorem exists_entry_of_outline (h : s.outline = s'.outline) {e : Symbol × Transition}
    (he : e ∈ s.rules.entries) :
    ∃ e' ∈ s'.rules.entries, e'.1 = e.1 ∧ e'.2.action = e.2.action := by
  have hm : (e.1, e.2.action) ∈ s'.outline.2 := by
    rw [← h]
    exact List.mem_map.mpr ⟨e, he, rfl⟩
  obtain ⟨e', he', hq⟩ := List.mem_map.mp hm
  rw [Prod.mk.injEq] at hq
  exact ⟨e', he', hq⟩

end State

/-! ## Programs with the same outlines -/

/-- The programs have the same states but for lines, as far as names can be reached. -/
def SameOutlines (p q : Program) : Prop :=
  ∀ n, p.Reaches n → (p.find? n).map State.outline = (q.find? n).map State.outline

namespace SameOutlines

variable {p q : Program}

/-- Where one program has a state, so has the other. -/
theorem exists_find? (h : SameOutlines p q) {n : String} (hr : p.Reaches n) {s : State}
    (hs : p.find? n = some s) : ∃ s', q.find? n = some s' ∧ s'.outline = s.outline := by
  have ho := h n hr
  rw [hs, Option.map_some, eq_comm] at ho
  exact Option.map_eq_some_iff.mp ho

theorem exists_find?' (h : SameOutlines p q) {n : String} (hr : p.Reaches n) {s' : State}
    (hs : q.find? n = some s') : ∃ s, p.find? n = some s ∧ s.outline = s'.outline := by
  have ho := h n hr
  rw [hs, Option.map_some] at ho
  exact Option.map_eq_some_iff.mp ho

/-- The same names are reached. -/
theorem reaches_iff (h : SameOutlines p q) {n : String} : q.Reaches n ↔ p.Reaches n := by
  constructor
  · intro hr
    induction hr with
    | start => exact .start
    | step _ hs ht hh ih =>
      obtain ⟨s, hs', ho⟩ := h.exists_find?' ih hs
      refine ih.target hs' ?_
      rw [State.targets_eq_of_outline ho]
      exact Program.mem_targets.mpr ⟨_, ht, rfl, hh⟩
  · intro hr
    induction hr with
    | start => exact .start
    | step hr hs ht hh ih =>
      obtain ⟨s', hs', ho⟩ := h.exists_find? hr hs
      refine ih.target hs' ?_
      rw [State.targets_eq_of_outline ho]
      exact Program.mem_targets.mpr ⟨_, ht, rfl, hh⟩

/-- The names are reached in the same order. -/
theorem walk (h : SameOutlines p q) {visited waiting : List String}
    (hw : ∀ n ∈ waiting, p.Reaches n) : q.walk visited waiting = p.walk visited waiting := by
  fun_induction Program.walk p visited waiting with
  | case1 => rw [Program.walk]
  | case2 visited name rest hv ih =>
    rw [Program.walk_of_mem hv]
    exact ih fun n hn => hw n (List.mem_cons_of_mem _ hn)
  | case3 visited name rest hv hs ih =>
    have hq : q.find? name = none := by
      have ho := h name (hw name List.mem_cons_self)
      rw [hs, Option.map_none, eq_comm, Option.map_eq_none_iff] at ho
      exact ho
    rw [Program.walk_of_find?_none hv hq]
    exact ih fun n hn => hw n (List.mem_cons_of_mem _ hn)
  | case4 visited name rest hv s hs _ ih =>
    have hr : p.Reaches name := hw name List.mem_cons_self
    obtain ⟨s', hs', ho⟩ := h.exists_find? hr hs
    have hn : s'.newTargets (visited ++ [name]) = s.newTargets (visited ++ [name]) := by
      unfold State.newTargets
      rw [State.targets_eq_of_outline ho]
    rw [Program.walk_of_find? hv hs', hn]
    refine ih ?_
    intro n hn
    rcases List.mem_append.mp hn with hn | hn
    · exact hr.target hs (List.mem_filter.mp hn).1
    · exact hw n (List.mem_cons_of_mem _ hn)

/-- The states that are listed have the same outlines in the same order. -/
theorem reachable (h : SameOutlines p q) :
    q.reachable.map State.outline = p.reachable.map State.outline := by
  have hn : q.reachableNames = p.reachableNames :=
    h.walk fun n hn => List.mem_singleton.mp hn ▸ .start
  unfold Program.reachable
  rw [List.map_filterMap, List.map_filterMap, hn]
  refine List.filterMap_congr ?_
  intro n hm
  exact (h n (Program.mem_reachableNames_iff.mp hm).1).symm

/-- The programs run in lock-step. -/
theorem inLockStep (h : SameOutlines p q) : InLockStep p q fun s s' =>
    s ∈ p.reachable ∧ s.outline = s'.outline where
  name := fun ⟨_, ho⟩ => State.name_eq_of_outline ho
  lookup := fun ⟨_, ho⟩ => State.lookup_eq_of_outline ho
  next := by
    rintro s s' ⟨hs, -⟩ cell t hl hh
    obtain ⟨hmem, hr⟩ := Program.mem_reachable_iff.mp hs
    have hf : p.find? s.name = some s := Program.find?_eq_some.mpr ⟨hmem, rfl⟩
    have ht : t ∈ s.rules.values := by
      rcases State.of_lookup hl with he | he
      · exact List.mem_map_of_mem he
      · exact List.mem_map_of_mem he
    have hnext : p.Reaches t.next := hr.step hf ht hh
    have ho := h t.next hnext
    cases hp : p.find? t.next with
    | none =>
      rw [hp, Option.map_none, eq_comm, Option.map_eq_none_iff] at ho
      rw [ho]
      exact .none
    | some s₁ =>
      obtain ⟨s₁', hq, ho₁⟩ := h.exists_find? hnext hp
      rw [hq]
      obtain ⟨hmem₁, hname₁⟩ := Program.find?_eq_some.mp hp
      exact .some ⟨Program.mem_reachable_iff.mpr ⟨hmem₁, hname₁.symm ▸ hnext⟩, ho₁.symm⟩

end SameOutlines

/-! ## The states that are listed, as a program -/

section

variable {p q : Program} (hq : q.states.map State.outline = p.reachable.map State.outline)

include hq

theorem exists_listed {s' : State} (hs : s' ∈ q.states) :
    ∃ s ∈ p.reachable, s.outline = s'.outline := by
  have hm : s'.outline ∈ p.reachable.map State.outline := hq ▸ List.mem_map_of_mem hs
  exact List.mem_map.mp hm

theorem exists_kept {s : State} (hs : s ∈ p.reachable) :
    ∃ s' ∈ q.states, s'.outline = s.outline := by
  have hm : s.outline ∈ q.states.map State.outline := hq ▸ List.mem_map_of_mem hs
  exact List.mem_map.mp hm

/-- A program made of the listed states has the same outlines. -/
theorem sameOutlines_of_reachable : SameOutlines p q := by
  intro n hr
  cases hp : p.find? n with
  | none =>
    cases hf : q.find? n with
    | none => rfl
    | some s' =>
      obtain ⟨hmem', hname'⟩ := Program.find?_eq_some.mp hf
      obtain ⟨s, hs, ho⟩ := exists_listed hq hmem'
      have hname : s.name = n := (State.name_eq_of_outline ho).trans hname'
      have hn : n ∈ p.names := hname ▸ List.mem_map_of_mem (Program.mem_reachable_iff.mp hs).1
      exact absurd hn (Program.find?_eq_none.mp hp)
  | some s =>
    obtain ⟨hmem, hname⟩ := Program.find?_eq_some.mp hp
    obtain ⟨s', hs', ho⟩ :=
      exists_kept hq (Program.mem_reachable_iff.mpr ⟨hmem, hname.symm ▸ hr⟩)
    have hf : q.find? n = some s' :=
      Program.find?_eq_some.mpr ⟨hs', (State.name_eq_of_outline ho).trans hname⟩
    rw [hf, Option.map_some, Option.map_some, ho]

/-- A program made of the listed states of a valid program is valid. -/
theorem validOver_of_reachable {alphabet : Alphabet} (hv : p.ValidOver alphabet) :
    q.ValidOver alphabet := by
  have hsame := sameOutlines_of_reachable hq
  have hlisted : ∀ s' ∈ q.states, ∃ s ∈ p.states, s'.outline = s.outline := by
    intro s' hs'
    obtain ⟨s, hs, ho⟩ := exists_listed hq hs'
    exact ⟨s, (Program.mem_reachable_iff.mp hs).1, ho.symm⟩
  refine ⟨?_, ?_, ?_, ?_, ?_⟩
  · intro s' hs'
    obtain ⟨s, hs, ho⟩ := hlisted s' hs'
    rw [State.name_eq_of_outline ho]
    exact hv.unreserved s hs
  · intro s' hs' e' he'
    obtain ⟨s, hs, ho⟩ := hlisted s' hs'
    obtain ⟨e, he, h1, -⟩ := State.exists_entry_of_outline ho he'
    exact h1 ▸ hv.triggers s hs e he
  · intro s' hs' e' he'
    obtain ⟨s, hs, ho⟩ := hlisted s' hs'
    obtain ⟨e, he, -, ha⟩ := State.exists_entry_of_outline ho he'
    have hw : e.2.write = e'.2.write := congrArg (fun a => a.2.1) ha
    exact hw ▸ hv.writes s hs e he
  · obtain ⟨s, hf, -⟩ := hv.covered startName .start
    obtain ⟨s', hf', -⟩ := hsame.exists_find? .start hf
    exact Program.mem_names_of_find? hf'
  · intro n hr
    have hr' := hsame.reaches_iff.mp hr
    obtain ⟨s, hf, hc⟩ := hv.covered n hr'
    obtain ⟨s', hf', ho⟩ := hsame.exists_find? hr' hf
    refine ⟨s', hf', ?_⟩
    rw [State.keys_eq_of_outline ho]
    exact hc

end

/-! ## The dump of a machine -/

namespace Machine

variable {m : Machine}

theorem of_mem_reachable {s : State} (hs : s ∈ m.reachable) : s ∈ m.program.states :=
  (Program.mem_reachable_iff.mp hs).1

/-- The dump reads as a program of the listed states. -/
theorem read_dump {source : String} (h : Program.read source = .ok m.program) :
    ∃ q, Program.read m.dump = .ok q ∧
      q.states.map State.outline = m.reachable.map State.outline := by
  have hnodup : (m.reachable.map State.name).Nodup := by
    rw [reachable, Program.names_reachable]
    exact Program.nodup_reachableNames _
  have hp : Program.Printable (m.reachable.flatMap State.ruleList) := by
    intro r hr
    obtain ⟨s, hs, hrs⟩ := List.mem_flatMap.mp hr
    exact Program.printable_of_read h r (List.mem_flatMap.mpr ⟨s, of_mem_reachable hs, hrs⟩)
  obtain ⟨q, hq, ho, -⟩ := Program.read_sources hnodup
    (fun s hs => m.program.rules_ne_nil s (of_mem_reachable hs)) hp
  exact ⟨q, hq, ho⟩

/-- The dump compiles over the letters of the machine. -/
theorem compile_dump {source : String} {items : List Json} (hm : compile source items = .ok m) :
    ∃ m', compile m.dump (Alphabet.itemsOf (String.join m.alphabet)) = .ok m' ∧
      m'.alphabet = m.alphabet ∧
      m'.program.states.map State.outline = m.reachable.map State.outline := by
  obtain ⟨ha, hp⟩ := compile_eq_ok.mp hm
  obtain ⟨q, hq, ho⟩ := read_dump hp
  have hv : q.ValidOver m.alphabet := validOver_of_reachable ho m.validOver
  obtain ⟨start, hs, -⟩ := hv.covered startName .start
  have hc : q.check m.alphabet = .ok start := Program.check_eq_ok_iff_validOver.mpr ⟨hs, hv⟩
  exact ⟨⟨m.alphabet, q, start, hc⟩,
    compile_eq_ok.mpr ⟨Alphabet.ofItems_itemsOf_join ha, hq⟩, rfl, ho⟩

/-- The dump of a machine compiles over its letters to a machine of the listed states: in their
order, each with its rules in their order, on other lines only. The new machine has the same dump. On
every input, tape and head the two run alike: they make the same transitions, come to the same
configuration but for lines, and end alike, with the same result or the same message, or raise the
same where the head cannot be shown. -/
theorem dump_recompiles [Host] {source : String} {items : List Json}
    (hm : compile source items = .ok m) :
    ∃ m', compile m.dump (Alphabet.itemsOf (String.join m.alphabet)) = .ok m' ∧
      m'.alphabet = m.alphabet ∧
      m'.program.states.map State.outline = m.reachable.map State.outline ∧
      m'.dump = m.dump ∧
      ∀ contents size head, m.RunsLike m' contents size head := by
  obtain ⟨m', hc, ha, ho⟩ := compile_dump hm
  have hsame : SameOutlines m.program m'.program := sameOutlines_of_reachable ho
  have hstart : m.start.outline = m'.start.outline := by
    have h := hsame startName .start
    rw [m.find?_startName, m'.find?_startName, Option.map_some, Option.map_some,
      Option.some.injEq] at h
    exact h
  have hdump : m'.dump = m.dump := by
    unfold dump
    exact congrArg String.join
      (State.map_eq_of_outlines State.source_eq_of_outline hsame.reachable)
  exact ⟨m', hc, ha, ho, hdump,
    runsLike_of_inLockStep hsame.inLockStep ⟨start_mem_reachable, hstart⟩⟩

section

attribute [local instance] Host.usual

/-- A state that is not reached, and a name with a blank and with both characters of the arrow. -/
theorem dump_recompiles_arrow_letters : ∃ m m',
    compile "S,* -> a > b-,>,r\nX,_ -> ha,*,s\na > b-,* -> ha,-,s" (Alphabet.itemsOf "->") =
      .ok m ∧
    compile m.dump (Alphabet.itemsOf (String.join m.alphabet)) = .ok m' ∧ m'.dump = m.dump := by
  obtain ⟨m, hm⟩ := @Sample.exists_machine "S,* -> a > b-,>,r\nX,_ -> ha,*,s\na > b-,* -> ha,-,s"
    "->" (by decide +kernel)
  obtain ⟨m', hm', -, -, hd, -⟩ := dump_recompiles hm
  exact ⟨m, m', hm, hm', hd⟩

end

end Machine

end TapeMachine
