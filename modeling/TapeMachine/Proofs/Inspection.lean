import TapeMachine.Inspector
import TapeMachine.Proofs.Reordering
import TapeMachine.Proofs.Safety

/-!
# The inspector's table

The table of a machine loses nothing of what the machine does. The triggers of a state that a run can
enter are letters or the wildcard, so each has a column, and only one, since no symbol stands twice. A
cell is read again from its front: a write is one character, a movement is one capital, and the rest is
the name of the next state, whatever it is. Machines with the same table therefore have the same states
to enter and do the same in them.

## Main statements

* `Transition.short_ne_noRule` — no transition looks like a missing one
* `Inspector.readCell_cell` — a cell reads back as what the state does for the symbol
* `Inspector.rowTells_row` — a row tells its state
* `Inspector.inLockStep_of_rows_eq` — machines with the same table are in lock-step
* `Inspector.table_is_lossless` — all this of compiled machines, and that equal tables run alike
-/

namespace TapeMachine

/-! ## Cells -/

/-- The movement of a capital letter. -/
def Move.ofCapital? (t : String) : Option Move := all.find? fun m => m.capital = t

theorem Move.ofCapital?_capital (m : Move) : ofCapital? m.capital = some m := by cases m <;> decide

theorem Move.exists_capital (m : Move) : ∃ c, m.capital = String.singleton c ∧ c ≠ '-' := by
  cases m with
  | left => exact ⟨'L', rfl, by decide⟩
  | right => exact ⟨'R', rfl, by decide⟩
  | stay => exact ⟨'S', rfl, by decide⟩

theorem Transition.toList_short (t : Transition) {c : Char} (hc : t.move.capital = String.singleton c) :
    t.short.toList = t.write.toList ++ c :: t.next.toList := by
  rw [short, hc, String.toList_append, String.toList_append, String.toList_singleton,
    List.append_assoc, List.singleton_append]

/-- No transition looks like a missing one, not even one that writes what stands for those. -/
theorem Transition.short_ne_noRule (t : Transition) : t.short ≠ Inspector.noRule := by
  obtain ⟨c, hc, hne⟩ := t.move.exists_capital
  intro h
  rw [← String.toList_inj, t.toList_short hc] at h
  have hmem : c ∈ Inspector.noRule.toList := h ▸ List.mem_append_right _ List.mem_cons_self
  exact hne (List.mem_singleton.mp hmem)

namespace Inspector

/-- What a cell says that a state does: the write is the first character, the movement the second, and
the next state the rest. -/
def readCell (text : String) : Option (String × Symbol × Move) :=
  match text.toList with
  | write :: move :: next => (Move.ofCapital? (String.singleton move)).map fun m =>
      (String.ofList next, String.singleton write, m)
  | _ => none

theorem readCell_noRule : readCell noRule = none := rfl

theorem readCell_short {t : Transition} (h : t.write.length = 1) :
    readCell t.short = some t.action := by
  obtain ⟨c, hc, -⟩ := t.move.exists_capital
  rw [← String.length_toList, List.length_eq_one_iff] at h
  obtain ⟨w, hw⟩ := h
  have hlist : t.short.toList = w :: c :: t.next.toList := by
    rw [t.toList_short hc, hw, List.singleton_append]
  have hwrite : String.singleton w = t.write := by
    rw [← String.toList_inj, hw, String.toList_singleton]
  rw [readCell, hlist]
  simp only
  rw [← hc, Move.ofCapital?_capital, Option.map_some, hwrite, String.ofList_toList]
  rfl

section

variable {s : State} {symbol : Symbol}

theorem cell_of_find? {t : Transition} (h : s.rules.find? symbol = some t) : cell s symbol = t.short := by
  rw [cell, h, Option.map_some, Option.getD_some]

/-- A cell stands for a missing rule exactly if the state has none for the symbol. -/
theorem cell_eq_noRule : cell s symbol = noRule ↔ symbol ∉ s.rules.keys := by
  rw [← Table.find?_eq_none]
  cases h : s.rules.find? symbol with
  | none => simp only [cell, h, Option.map_none, Option.getD_none]
  | some t => simp only [cell_of_find? h, t.short_ne_noRule, reduceCtorEq]

/-- A cell reads back as what the state does for the symbol, if anything, where writes are single
characters. -/
theorem readCell_cell (hw : ∀ e ∈ s.rules.entries, e.2.write.length = 1) :
    readCell (cell s symbol) = (s.rules.find? symbol).map Transition.action := by
  cases h : s.rules.find? symbol with
  | none =>
    rw [cell_eq_noRule.mpr (Table.find?_eq_none.mp h), readCell_noRule, Option.map_none]
  | some t =>
    rw [cell_of_find? h, readCell_short (hw _ (Table.find?_eq_some.mp h)), Option.map_some]

end

/-! ## Rows -/

/-- A row tells a state. The last column is that of the wildcard. -/
structure RowTells (symbols : List Symbol) (row : List String) (s : State) : Prop where
  name : row.head? = some s.name
  length : row.length = symbols.length + 1
  /-- Each transition stands in one column only, that of its trigger. -/
  once : ∀ e ∈ s.rules.entries, ∃! i, symbols[i]? = some e.1 ∧ row[i + 1]? = some e.2.short
  /-- Each cell reads back as what the state does for the symbol of the column, and is marked as
  missing exactly if the state has no rule for it. -/
  cells : ∀ i symbol, symbols[i]? = some symbol → ∃ text, row[i + 1]? = some text ∧
    readCell text = (s.rules.find? symbol).map Transition.action ∧
    (text = noRule ↔ symbol ∉ s.rules.keys)
  /-- The wildcard has a rule, or each letter has. -/
  covered : (∃ text, row[symbols.length]? = some text ∧ text ≠ noRule) ∨
    ∀ i text, i + 1 < symbols.length → row[i + 1]? = some text → text ≠ noRule

section

variable {source : String} {items : List Json} {m : Machine} {s : State}

/-- The cells of a row are those of its symbols. -/
theorem getElem?_row {symbols : List Symbol} {i : Nat} {symbol : Symbol}
    (h : symbols[i]? = some symbol) : (row symbols s)[i + 1]? = some (cell s symbol) := by
  rw [row, List.getElem?_cons_succ, List.getElem?_map, h, Option.map_some]

/-- No symbol has two columns. -/
theorem nodup_symbols (hm : Machine.compile source items = .ok m) : (symbols m).Nodup := by
  have ha := (Machine.compile_eq_ok.mp hm).1
  exact nodup_append_singleton (Alphabet.nodup_of_ofItems ha) fun hw =>
    ((Alphabet.of_ofItems ha).2 _ hw).2 rfl

/-- The triggers of a listed state have columns. -/
theorem mem_symbols (hs : s ∈ m.reachable) {trigger : Symbol} (h : trigger ∈ s.rules.keys) :
    trigger ∈ symbols m := by
  obtain ⟨e, he, rfl⟩ := List.mem_map.mp h
  rw [symbols, List.mem_append, List.mem_singleton]
  exact (m.validOver.triggers s (Program.mem_reachable_iff.mp hs).1 e he).symm

/-- The writes of a listed state are single characters. -/
theorem length_write (hm : Machine.compile source items = .ok m) (hs : s ∈ m.reachable)
    {e : Symbol × Transition} (he : e ∈ s.rules.entries) : e.2.write.length = 1 := by
  rcases m.validOver.writes s (Program.mem_reachable_iff.mp hs).1 e he with hw | hl
  · rw [hw]
    rfl
  · exact ((Alphabet.of_ofItems (Machine.compile_eq_ok.mp hm).1).2 _ hl).1

/-- The row of a listed state tells it. -/
theorem rowTells_row (hm : Machine.compile source items = .ok m) (hs : s ∈ m.reachable) :
    RowTells (symbols m) (row (symbols m) s) s where
  name := rfl
  length := length_row (symbols m) s
  once := by
    intro e he
    obtain ⟨i, hi⟩ := List.mem_iff_getElem?.mp (mem_symbols hs (List.mem_map_of_mem he))
    have hcell : cell s e.1 = e.2.short := cell_of_find? (Table.find?_eq_some.mpr he)
    refine ⟨i, ⟨hi, by rw [getElem?_row hi, hcell]⟩, fun j hj => ?_⟩
    have hlt : j < (symbols m).length := (List.getElem?_eq_some_iff.mp hj.1).1
    exact (List.getElem?_inj hlt (nodup_symbols hm)).mp (hj.1.trans hi.symm)
  cells := fun i symbol hi => ⟨cell s symbol, getElem?_row hi,
    readCell_cell fun e he => length_write hm hs he, cell_eq_noRule⟩
  covered := by
    obtain ⟨hmem, hr⟩ := Program.mem_reachable_iff.mp hs
    obtain ⟨s', hf, hcovers⟩ := m.validOver.covered _ hr
    rw [Program.find?_eq_some.mpr ⟨hmem, rfl⟩] at hf
    cases hf
    have hlength : (symbols m).length = m.alphabet.length + 1 := by
      rw [symbols, List.length_append, List.length_singleton]
    rcases hcovers with hwild | hall
    · left
      have hlast : (symbols m)[m.alphabet.length]? = some Symbol.wildcard := List.getElem?_concat_length
      exact ⟨_, hlength ▸ getElem?_row hlast, fun h => cell_eq_noRule.mp h hwild⟩
    · right
      intro i text hi ht
      have hlt : i < m.alphabet.length := by omega
      have hletter : (symbols m)[i]? = some m.alphabet[i] := by
        rw [symbols, List.getElem?_append_left hlt, List.getElem?_eq_getElem hlt]
      rw [getElem?_row hletter, Option.some.injEq] at ht
      exact fun h => cell_eq_noRule.mp (ht.trans h) (hall _ (List.getElem_mem hlt))

end

/-! ## Equal tables -/

section

variable {source source' : String} {items items' : List Json} {m m' : Machine} {s s' : State}

/-- States with the same row are alike. -/
theorem alike_of_row_eq (hm : Machine.compile source items = .ok m)
    (hm' : Machine.compile source' items' = .ok m') (hs : s ∈ m.reachable) (hs' : s' ∈ m'.reachable)
    (hsymbols : symbols m = symbols m') (h : row (symbols m) s = row (symbols m') s') : s.Alike s' where
  name := (List.cons.inj h).1
  action := by
    intro trigger
    have hcells := (List.cons.inj h).2
    rw [← hsymbols] at hcells
    by_cases hmem : trigger ∈ symbols m
    · rw [← readCell_cell fun e he => length_write hm hs he,
        ← readCell_cell fun e he => length_write hm' hs' he, List.map_inj_left.mp hcells trigger hmem]
    · -- without a column neither state has a rule
      have hnone : s.rules.find? trigger = none :=
        Table.find?_eq_none.mpr fun hk => hmem (mem_symbols hs hk)
      have hnone' : s'.rules.find? trigger = none :=
        Table.find?_eq_none.mpr fun hk => hmem (hsymbols ▸ mem_symbols hs' hk)
      rw [hnone, hnone']

/-- Where one machine lists a state, a machine with the same table lists one like it. -/
theorem exists_alike_of_rows_eq (hm : Machine.compile source items = .ok m)
    (hm' : Machine.compile source' items' = .ok m') (hsymbols : symbols m = symbols m')
    (hrows : rows m = rows m') (hs : s ∈ m.reachable) :
    ∃ s' ∈ m'.reachable, m'.program.find? s.name = some s' ∧ s.Alike s' := by
  have hrow : row (symbols m) s ∈ rows m' := hrows ▸ List.mem_map_of_mem hs
  obtain ⟨s', hs', h⟩ := List.mem_map.mp hrow
  have halike : s.Alike s' := alike_of_row_eq hm hm' hs hs' hsymbols h.symm
  exact ⟨s', hs', Program.find?_eq_some.mpr ⟨(Program.mem_reachable_iff.mp hs').1, halike.name.symm⟩,
    halike⟩

/-- The states of two machines that are listed and alike. -/
def Listed (m m' : Machine) (s s' : State) : Prop :=
  s ∈ m.reachable ∧ s' ∈ m'.reachable ∧ s.Alike s'

/-- Machines with the same table are in lock-step through their listed states. -/
theorem inLockStep_of_rows_eq (hm : Machine.compile source items = .ok m)
    (hm' : Machine.compile source' items' = .ok m') (hsymbols : symbols m = symbols m')
    (hrows : rows m = rows m') : InLockStep m.program m'.program (Listed m m') where
  name := fun h => h.2.2.name
  lookup := fun h => h.2.2.lookup
  next := by
    rintro s s' ⟨hs, -, -⟩ cell t hl hh
    obtain ⟨trigger, he⟩ : ∃ trigger, (trigger, t) ∈ s.rules.entries := by
      rcases State.of_lookup hl with he | he
      · exact ⟨_, he⟩
      · exact ⟨_, he⟩
    obtain ⟨next, hlisted, hf⟩ := Machine.exists_next hs he hh
    obtain ⟨next', hlisted', hf', halike⟩ := exists_alike_of_rows_eq hm hm' hsymbols hrows hlisted
    rw [(Program.find?_eq_some.mp hf).2] at hf'
    rw [hf, hf']
    exact .some ⟨hlisted, hlisted', halike⟩

/-- The table of a compiled machine is lossless. No symbol and no state stands twice; the rows tell the
listed states, in their order; and no transition looks like a missing one. So compiled machines with the
same symbols and rows run alike on every input. -/
theorem table_is_lossless [Host] (hm : Machine.compile source items = .ok m) :
    (symbols m).Nodup ∧ (m.reachable.map State.name).Nodup ∧
    List.Forall₂ (RowTells (symbols m)) (rows m) m.reachable ∧
    (∀ t : Transition, t.short ≠ noRule) ∧
    ∀ source' items' m', Machine.compile source' items' = .ok m' → symbols m = symbols m' →
      rows m = rows m' → ∀ contents size head, m.RunsLike m' contents size head := by
  refine ⟨nodup_symbols hm, ?_, ?_, Transition.short_ne_noRule, ?_⟩
  · show (m.program.reachable.map State.name).Nodup
    rw [Program.names_reachable]
    exact m.program.nodup_reachableNames
  · rw [rows, List.forall₂_map_left_iff, List.forall₂_same]
    exact fun s hs => rowTells_row hm hs
  · intro source' items' m' hm' hsymbols hrows contents size head
    have hstart : Listed m m' m.start m'.start := by
      obtain ⟨s', hs', hf, halike⟩ :=
        exists_alike_of_rows_eq hm hm' hsymbols hrows Machine.start_mem_reachable
      rw [(Program.find?_eq_some.mp m.find?_startName).2, m'.find?_startName, Option.some.injEq] at hf
      exact ⟨Machine.start_mem_reachable, hf ▸ hs', hf ▸ halike⟩
    exact Machine.runsLike_of_inLockStep (inLockStep_of_rows_eq hm hm' hsymbols hrows) hstart contents
      size head

section

attribute [local instance] Host.usual

/-- The sample program, and its rules in another order with those of a state that no run enters. -/
theorem table_is_lossless_evens : ∃ m m',
    Machine.compile Sample.evens (Alphabet.itemsOf Sample.evensLetters) = .ok m ∧
    Machine.compile ("X,* -> O,a,l\nO,_ -> hr,*,s\nO,* -> E,*,r\nE,_ -> ha,*,s\n" ++
      "E,* -> O,*,r\nS,* -> E,*,r\n") (Alphabet.itemsOf Sample.evensLetters) = .ok m' ∧
    symbols m = symbols m' ∧ rows m = rows m' ∧
    rows m = [["S", "-", "-", "*RE"], ["E", "*Sha", "-", "*RO"], ["O", "*Shr", "-", "*RE"]] ∧
    ∀ contents size head, m.RunsLike m' contents size head := by
  let table := [["S", "-", "-", "*RE"], ["E", "*Sha", "-", "*RO"], ["O", "*Shr", "-", "*RE"]]
  let test : Machine → Bool := fun m => symbols m = ["_", "a", "*"] ∧ rows m = table
  obtain ⟨m, hm, ht⟩ := @Sample.exists_machine_with Sample.evens Sample.evensLetters test
    (by decide +kernel)
  obtain ⟨m', hm', ht'⟩ := @Sample.exists_machine_with ("X,* -> O,a,l\nO,_ -> hr,*,s\n" ++
    "O,* -> E,*,r\nE,_ -> ha,*,s\nE,* -> O,*,r\nS,* -> E,*,r\n") Sample.evensLetters test
    (by decide +kernel)
  obtain ⟨hsymbols, hrows⟩ := of_decide_eq_true ht
  obtain ⟨hsymbols', hrows'⟩ := of_decide_eq_true ht'
  have hs := hsymbols.trans hsymbols'.symm
  have hr := hrows.trans hrows'.symm
  exact ⟨m, m', hm, hm', hs, hr, hrows, (table_is_lossless hm).2.2.2.2 _ _ _ hm' hs hr⟩

end

end

end Inspector

end TapeMachine
