import TapeMachine.Proofs.Budgets

/-!
# Runs by snapshots

What a program does on tapes of all sizes is followed on snapshots: the tape is cut before the cell
under the head, and a step changes the two ends at the cut only. A snapshot does not need the
program, only the outlines of its states. If there is nothing after the cut, the head has left the
tape on the right.

## Main statements

* `Snapshot.Shows.exists_follow` — a step of a run is a step of its snapshot
* `Snapshot.Leads.scan` — the head goes over a word to the right
* `Snapshot.Leads.runFor` — a run follows its snapshots
* `Machine.run_of_leads_halting`, `Machine.run_of_leads_off` — how a run ends whose last snapshot is
  in a halting state or has nothing after the cut
-/

namespace TapeMachine

/-! ## Outlines of states -/

/-- The rules of states without their places in a program. -/
abbrev Outlines := List (String × List (Symbol × String × Symbol × Move))

namespace Outlines

/-- What a state does on a symbol. -/
def action? (os : Outlines) (name : String) (cell : Symbol) : Option (String × Symbol × Move) :=
  (os.lookup name).bind fun rules => (rules.lookup cell).or (rules.lookup Symbol.wildcard)

section

variable {os : Outlines} {name : String} {cell trigger : Symbol} {a b : String × Symbol × Move}

/-- A state with a rule for any symbol only. -/
theorem action?_any (h : os.lookup name = some [(Symbol.wildcard, a)]) (cell : Symbol) :
    os.action? name cell = some a := by
  rw [action?, h, Option.bind_some]
  cases hc : cell == Symbol.wildcard <;> simp [List.lookup_cons, hc]

/-- A state with a rule for one symbol and a rule for any other, on that symbol. -/
theorem action?_one (h : os.lookup name = some [(trigger, a), (Symbol.wildcard, b)]) :
    os.action? name trigger = some a := by
  rw [action?, h, Option.bind_some]
  simp [List.lookup_cons]

/-- The same state on another symbol. -/
theorem action?_other (h : os.lookup name = some [(trigger, a), (Symbol.wildcard, b)])
    (hw : trigger ≠ Symbol.wildcard) (hne : cell ≠ trigger) : os.action? name cell = some b := by
  have ht : (cell == trigger) = false := by simpa using hne
  have htw : (Symbol.wildcard == trigger) = false := by simpa using Ne.symm hw
  rw [action?, h, Option.bind_some]
  cases hc : cell == Symbol.wildcard <;> simp [List.lookup_cons, ht, hc, htw]

end

end Outlines

namespace Program

variable {p : Program} {name : String} {s : State}

/-- The outlines of the states of a program. -/
def outlines (p : Program) : Outlines := p.states.map State.outline

/-- The outline under a name is that of the state found under it. -/
theorem lookup_outlines (p : Program) (name : String) :
    p.outlines.lookup name = (p.find? name).map fun s => s.outline.2 := by
  unfold outlines find?
  induction p.states with
  | nil => rfl
  | cons s rest ih =>
    rw [List.map_cons, State.outline, List.lookup_cons, List.find?_cons]
    by_cases hn : s.name = name
    · simp [hn, State.outline]
    · have hb : (name == s.name) = false := by simpa using Ne.symm hn
      simp [hn, hb, ih]

/-- What a state of a program does is what it looks up. -/
theorem action?_outlines (h : p.find? name = some s) (cell : Symbol) :
    p.outlines.action? name cell = (s.lookup cell).map Transition.action := by
  rw [Outlines.action?, lookup_outlines, h, Option.map_some, Option.bind_some, State.outline,
    State.lookup, Option.map_or, Table.map_find?, Table.map_find?]

end Program

/-- A sample program gives a machine, of which the outlines are known from reading it. -/
theorem Sample.exists_machine_outlines {source letters : String} {os : Outlines}
    (h : compiles source letters = true)
    (hos : ((Program.read source).toOption.any fun p => p.outlines = os) = true) :
    ∃ m, Machine.compile source (Alphabet.itemsOf letters) = .ok m ∧ m.program.outlines = os := by
  obtain ⟨m, hm⟩ := exists_machine h
  rw [(Machine.compile_eq_ok.mp hm).2] at hos
  exact ⟨m, hm, of_decide_eq_true hos⟩

/-! ## Snapshots -/

/-- A moment of a run: the name of the state, the cells before the head from the nearest on, and the
cells from the head on. -/
structure Snapshot where
  state : String
  before : List Symbol
  after : List Symbol
  deriving DecidableEq

namespace Snapshot

variable {os : Outlines} {p : Program} {m n : Nat} {s s' s'' : Snapshot} {c c' : Configuration}

/-- What stands in a cell after a write: the wildcard leaves the cell as it is. -/
def written (write cell : Symbol) : Symbol := if write = Symbol.wildcard then cell else write

/-- The snapshot after the next step; none if there is nothing to do, or nothing on the left to go
to. -/
def next? (os : Outlines) : Snapshot → Option Snapshot
  | ⟨_, _, []⟩ => none
  | ⟨state, before, cell :: after⟩ =>
    (os.action? state cell).bind fun (next, write, move) =>
      match move, before with
      | .right, before => some ⟨next, written write cell :: before, after⟩
      | .stay, before => some ⟨next, before, written write cell :: after⟩
      | .left, near :: before => some ⟨next, before, near :: written write cell :: after⟩
      | .left, [] => none

example : next? [("S", [("*", "E", "b", .right)])] ⟨"S", [], ["_", "a"]⟩ =
    some ⟨"E", ["b"], ["a"]⟩ := by decide

/-! ## What a snapshot shows -/

/-- The tape and the head of a configuration are those of the snapshot. -/
structure Cuts (s : Snapshot) (c : Configuration) : Prop where
  cells : c.tape.toList = s.before.reverse ++ s.after
  head : c.head = s.before.length

/-- The tape, the head and the state of a configuration are those of the snapshot. -/
structure Shows (p : Program) (s : Snapshot) (c : Configuration) : Prop extends s.Cuts c where
  state : p.find? s.state = some c.state

theorem Cuts.size (h : s.Cuts c) : c.tape.size = s.before.length + s.after.length := by
  rw [← Array.length_toList, h.cells, List.length_append, List.length_reverse]

/-- The head is on the tape exactly if there is something after the cut. -/
theorem Cuts.inBounds (h : s.Cuts c) : c.inBounds = true ↔ s.after ≠ [] := by
  rw [Configuration.inBounds_iff, h.size, h.head, ← List.length_pos_iff]
  omega

/-- The first cell after the cut is the scanned one. -/
theorem Cuts.scanned? {cell : Symbol} {rest : List Symbol} (h : s.Cuts c)
    (ha : s.after = cell :: rest) : c.scanned? = some cell := by
  rw [Configuration.scanned?, if_pos (by rw [h.head]; omega), h.head, Int.toNat_natCast,
    ← Array.getElem?_toList, h.cells, ha]
  simp

/-! ## Steps -/

/-- There is a next snapshot only if something is after the cut, and the state does something on the
first cell of it. -/
theorem exists_of_next? (h : s.next? os = some s') :
    ∃ cell rest a, s.after = cell :: rest ∧ os.action? s.state cell = some a := by
  obtain ⟨state, before, after⟩ := s
  cases after with
  | nil => cases h
  | cons cell rest =>
    obtain ⟨a, ha, -⟩ := Option.bind_eq_some_iff.mp h
    exact ⟨cell, rest, a, rfl, ha⟩

theorem Cuts.cells_act (t : Transition) {cell : Symbol} {rest : List Symbol} (h : s.Cuts c)
    (ha : s.after = cell :: rest) :
    (c.act t).tape.toList = s.before.reverse ++ written t.write cell :: rest := by
  have htape : (c.act t).tape =
      if t.writes then c.tape.setIfInBounds c.head.toNat t.write else c.tape := rfl
  unfold Transition.writes at htape
  rw [htape, written]
  by_cases hw : t.write = Symbol.wildcard
  · rw [if_neg (by simpa using hw), if_pos hw, ← ha]
    exact h.cells
  · rw [if_pos (by simpa using hw), if_neg hw, Array.toList_setIfInBounds, h.cells, ha, h.head,
      Int.toNat_natCast]
    simp

theorem head_act (t : Transition) (c : Configuration) :
    (c.act t).head = c.head + t.move.delta := rfl

/-- A write and a movement change the ends at the cut. -/
theorem Cuts.act {t : Transition} {cell : Symbol} {rest : List Symbol} (h : s.Cuts c)
    (ha : s.after = cell :: rest) (haction : os.action? s.state cell = some t.action)
    (hn : s.next? os = some s') : s'.Cuts (c.act t) ∧ s'.state = t.next := by
  have hcells := h.cells_act t ha
  have hhead := head_act t c
  rw [h.head] at hhead
  obtain ⟨state, before, after⟩ := s
  obtain ⟨next, write, move, line⟩ := t
  cases ha
  simp only [next?, haction, Option.bind_some, Transition.action] at hn
  cases move with
  | right =>
    cases hn
    refine ⟨⟨?_, ?_⟩, rfl⟩
    · rw [hcells]
      simp
    · simp [hhead, Move.delta]
  | stay =>
    cases hn
    exact ⟨⟨hcells, by simp [hhead, Move.delta]⟩, rfl⟩
  | left =>
    cases before with
    | nil => cases hn
    | cons near before =>
      cases hn
      refine ⟨⟨?_, ?_⟩, rfl⟩
      · rw [hcells]
        simp
      · simp [hhead, Move.delta]

/-- A step of a run is a step of its snapshot. -/
theorem Shows.exists_follow (h : s.Shows p c) (hn : s.next? p.outlines = some s') :
    ∃ cell t, step p c = follow p cell t c ∧ s'.Cuts (c.act t) ∧ s'.state = t.next := by
  obtain ⟨cell, rest, a, ha, haction⟩ := exists_of_next? hn
  have hlookup := haction
  rw [Program.action?_outlines h.state] at hlookup
  obtain ⟨t, ht, rfl⟩ := Option.map_eq_some_iff.mp hlookup
  have hc : c.choose = .ok (cell, t) := Configuration.choose_eq_ok.mpr ⟨h.scanned? ha, ht⟩
  exact ⟨cell, t, step_of_choose_ok hc, h.act ha haction hn⟩

/-- A state that does something is a state of the program, and not a halting one. -/
theorem exists_state_of_next? {m : Machine} (hn : s.next? m.program.outlines = some s') :
    isHalting s.state = false ∧ ∃ st, m.program.find? s.state = some st := by
  obtain ⟨cell, rest, a, -, haction⟩ := exists_of_next? hn
  unfold Outlines.action? at haction
  rw [Program.lookup_outlines] at haction
  obtain ⟨rules, hrules, -⟩ := Option.bind_eq_some_iff.mp haction
  obtain ⟨st, hst, -⟩ := Option.map_eq_some_iff.mp hrules
  obtain ⟨hmem, hname⟩ := Program.find?_eq_some.mp hst
  exact ⟨isHalting_eq_false.mpr (hname ▸ m.validOver.unreserved st hmem), st, hst⟩

/-- A step to a snapshot that goes on leaves the run going. -/
theorem Shows.step {m : Machine} (h : s.Shows m.program c)
    (hn : s.next? m.program.outlines = some s') (hg : s'.next? m.program.outlines = some s'') :
    ∃ c', step m.program c = (c', .running) ∧ s'.Shows m.program c' := by
  obtain ⟨cell, t, hstep, hcuts, hstate⟩ := h.exists_follow hn
  obtain ⟨_, _, _, hafter, -⟩ := exists_of_next? hg
  obtain ⟨hh, st, hst⟩ := exists_state_of_next? hg
  have hb : (c.act t).inBounds = true := hcuts.inBounds.mpr (by simp [hafter])
  rw [hstate] at hh hst
  refine ⟨{ c.act t with state := st }, ?_, ⟨⟨hcuts.cells, hcuts.head⟩, hstate ▸ hst⟩⟩
  rw [hstep, follow_of_find? cell hb hh hst]

/-! ## Steps one after the other -/

/-- In a number of steps, one snapshot leads to another. -/
inductive Leads (os : Outlines) : Nat → Snapshot → Snapshot → Prop where
  | refl (s : Snapshot) : Leads os 0 s s
  | next {n : Nat} {s s' s'' : Snapshot} : s.next? os = some s' → Leads os n s' s'' →
      Leads os (n + 1) s s''

theorem Leads.trans (h : Leads os m s s') (h' : Leads os n s' s'') : Leads os (m + n) s s'' := by
  induction h with
  | refl s => rwa [Nat.zero_add]
  | next hn _ ih =>
    rw [Nat.succ_add]
    exact .next hn (ih h')

section

variable {q q' : String} {cell near : Symbol} {before after : List Symbol}

theorem Leads.right (h : os.action? q cell = some (q', Symbol.wildcard, .right))
    (hl : Leads os n ⟨q', cell :: before, after⟩ s) :
    Leads os (n + 1) ⟨q, before, cell :: after⟩ s := by
  refine .next ?_ hl
  rw [next?, h]
  rfl

theorem Leads.left (h : os.action? q cell = some (q', Symbol.wildcard, .left))
    (hl : Leads os n ⟨q', before, near :: cell :: after⟩ s) :
    Leads os (n + 1) ⟨q, near :: before, cell :: after⟩ s := by
  refine .next ?_ hl
  rw [next?, h]
  rfl

theorem Leads.stay (h : os.action? q cell = some (q', Symbol.wildcard, .stay))
    (hl : Leads os n ⟨q', before, cell :: after⟩ s) :
    Leads os (n + 1) ⟨q, before, cell :: after⟩ s := by
  refine .next ?_ hl
  rw [next?, h]
  rfl

end

/-- The head goes over a word to the right where each state on the way leaves the cell as it is. -/
theorem Leads.scan {q : Nat → String} {after : List Symbol} :
    ∀ {word before : List Symbol} {i : Nat}, (∀ k cell, word[k]? = some cell →
      os.action? (q (i + k)) cell = some (q (i + k + 1), Symbol.wildcard, .right)) →
    Leads os word.length ⟨q i, before, word ++ after⟩
      ⟨q (i + word.length), word.reverse ++ before, after⟩
  | [], _, _, _ => .refl _
  | cell :: word, before, i, h => by
    have hrest : Leads os word.length ⟨q (i + 1), cell :: before, word ++ after⟩
        ⟨q (i + 1 + word.length), word.reverse ++ cell :: before, after⟩ := by
      refine Leads.scan ?_
      intro k x hx
      have hk := h (k + 1) x (by rw [List.getElem?_cons_succ, hx])
      rwa [← Nat.add_assoc, Nat.add_right_comm i k 1] at hk
    rw [Nat.add_right_comm i 1, Nat.add_assoc] at hrest
    rw [List.reverse_cons, List.append_assoc]
    exact .right (h 0 cell rfl) hrest

/-- There is a last of several steps. -/
theorem Leads.exists_last (h : Leads os (n + 1) s s'') :
    ∃ s', Leads os n s s' ∧ s'.next? os = some s'' := by
  induction n generalizing s with
  | zero =>
    obtain _ | ⟨hn, hrest⟩ := h
    cases hrest
    exact ⟨s, .refl s, hn⟩
  | succ n ih =>
    obtain _ | ⟨hn, hrest⟩ := h
    obtain ⟨s', hl, hlast⟩ := ih hrest
    exact ⟨s', .next hn hl, hlast⟩

/-- What leads to a snapshot that goes on goes on. -/
theorem Leads.exists_next? (h : Leads os n s s') (hg : s'.next? os = some s'') :
    ∃ s₁, s.next? os = some s₁ := by
  cases h with
  | refl => exact ⟨s'', hg⟩
  | next hn => exact ⟨_, hn⟩

/-- A run follows its snapshots, to one that goes on. -/
theorem Leads.runFor {m : Machine} (h : Leads m.program.outlines n s s')
    (hg : s'.next? m.program.outlines = some s'') (hs : s.Shows m.program c) :
    ∃ c', runFor m.program n c = (c', .running) ∧ s'.Shows m.program c' := by
  induction h generalizing c with
  | refl s => exact ⟨c, rfl, hs⟩
  | next hn hl ih =>
    -- the next snapshot leads on, so the step to it does not end the run
    obtain ⟨s₂, hg₁⟩ := hl.exists_next? hg
    obtain ⟨c₁, hstep, hs₁⟩ := hs.step hn hg₁
    rw [runFor_succ_of_running _ hstep]
    exact ih hg hs₁

end Snapshot

/-! ## Whole runs -/

/-- The first snapshot of a run that starts on the blank before the contents; spare blanks are after
them. -/
def Snapshot.first (contents : String) (spare : Nat) : Snapshot :=
  ⟨startName, [], Symbol.blank :: symbolsOf contents ++ List.replicate spare Symbol.blank⟩

/-- A tape on which the contents fit has spare blanks after them. -/
theorem exists_spare {contents : String} {size : Int} (h : (contents.length : Int) + 1 ≤ size) :
    ∃ spare : Nat, size = (contents.length + 1 + spare : Nat) :=
  ⟨(size - (contents.length + 1)).toNat, by omega⟩

/-- The tape of a snapshot is known from its cells. -/
theorem Snapshot.Cuts.tape {s : Snapshot} {c : Configuration} (h : s.Cuts c) {cells : List Symbol}
    {size : Nat} (spare : Nat)
    (hcells : s.before.reverse ++ s.after = cells ++ List.replicate spare Symbol.blank)
    (hsize : cells.length + spare = size) : c.tape = Tape.ofCells cells size := by
  rw [← Array.toList_inj, h.cells, hcells, Tape.ofCells, ← hsize]
  simp

namespace Machine

variable {m : Machine} {contents : String} {spare n : Nat} {s : Snapshot}

/-- A run with spare blanks begins in its first snapshot. -/
theorem exists_begin_first (m : Machine) (contents : String) (spare : Nat) :
    ∃ c₀, m.begin contents (contents.length + 1 + spare : Nat) 0 = .ok c₀ ∧
      (Snapshot.first contents spare).Shows m.program c₀ ∧ c₀.steps = 0 := by
  have hfits : (contents.length : Int) + 1 ≤ (contents.length + 1 + spare : Nat) := by omega
  refine ⟨_, begin_eq_ok.mpr ⟨_, Tape.create_eq_ok.mpr ⟨hfits, rfl⟩, rfl⟩,
    ⟨⟨?_, rfl⟩, m.find?_startName⟩, rfl⟩
  have hspare : contents.length + 1 + spare - (contents.length + 1) = spare := by omega
  simp only [Snapshot.first, Tape.ofCells, Int.toNat_natCast, List.length_cons, length_symbolsOf,
    hspare]
  simp

section

variable [Host] (hsize : contents.length + 1 + spare ≤ Host.mostCells)
  (hl : Snapshot.Leads m.program.outlines (n + 1) (Snapshot.first contents spare) s)

include hsize hl

/-- The run comes to the last snapshot but one, and then follows one more transition. -/
theorem exists_last_follow : ∃ last cell t,
    s.Cuts (last.act t) ∧ s.state = t.next ∧ last.steps = n ∧
      ((follow m.program cell t last).2 ≠ .running →
        m.run contents (contents.length + 1 + spare : Nat) 0 =
          .ok (follow m.program cell t last)) := by
  obtain ⟨c₀, hb, hfirst, hzero⟩ := exists_begin_first m contents spare
  obtain ⟨s₁, hl, hn⟩ := hl.exists_last
  obtain ⟨last, hrun, hs⟩ := hl.runFor hn hfirst
  obtain ⟨cell, t, hstep, hcuts, hstate⟩ := hs.exists_follow hn
  have hsteps := steps_of_runFor_running hrun
  rw [hzero, Nat.zero_add] at hsteps
  refine ⟨last, cell, t, hcuts, hstate, hsteps, fun hend => ?_⟩
  rw [← hstep] at hend ⊢
  have hlast : runFor m.program (n + 1) c₀ = step m.program last := by
    rw [runFor_add, hrun]
    exact runFor_succ_of_not_running 0 hend
  rw [run_of_begin (by exact_mod_cast hsize) hb, run_of_ended (n := n + 1) (by rwa [hlast]), hlast]

/-- A run whose last snapshot is in a halting state, with something after the cut, halts. -/
theorem run_of_leads_halting (hh : isHalting s.state = true) (hafter : s.after ≠ []) :
    ∃ final, m.run contents (contents.length + 1 + spare : Nat) 0 =
        .ok (final, .halted (s.state = acceptName)) ∧
      s.Cuts final ∧ final.steps = n + 1 := by
  obtain ⟨last, cell, t, hcuts, hstate, hsteps, hrun⟩ := exists_last_follow hsize hl
  rw [hstate] at hh ⊢
  have hfollow := follow_of_halting (p := m.program) cell (hcuts.inBounds.mpr hafter) hh
  rw [hfollow] at hrun
  refine ⟨last.act t, hrun nofun, hcuts, ?_⟩
  rw [← hsteps]
  rfl

/-- A run whose last snapshot has nothing after the cut has left the tape on the right. -/
theorem run_of_leads_off (hafter : s.after = []) :
    ∃ final cell t, m.run contents (contents.length + 1 + spare : Nat) 0 =
        .ok (final, .failed (.fellOff cell t)) ∧
      s.Cuts final ∧ final.steps = n + 1 := by
  obtain ⟨last, cell, t, hcuts, hstate, hsteps, hrun⟩ := exists_last_follow hsize hl
  have houtside : (last.act t).inBounds = false := by
    rw [← Bool.not_eq_true, hcuts.inBounds]
    exact fun h => h hafter
  rw [follow_of_outside cell houtside] at hrun
  refine ⟨last.act t, cell, t, hrun nofun, hcuts, ?_⟩
  rw [← hsteps]
  rfl

end

end Machine

end TapeMachine
