import TapeMachine.Result
import TapeMachine.Sample

/-!
# Cells that a run does not come to

A tape can be put between more cells on both sides. A run that does not fail on the tape alone makes the
same steps there: the head stays on the tape, so nothing around it is scanned or written, and no end of
the tape is taken for the other. More is true of single cells. A cell that the head does not come to can
hold anything, and holds the same when the run has ended, however it ends.

## Main statements

* `step_framed`, `runFor_framed` — a step, and a run, between more cells
* `step_withCell`, `runFor_withCell` — a step, and a run, with something else in a cell that the head
  does not come to
* `Machine.run_is_local` — both for a machine, step by step and for the results
-/

namespace TapeMachine

variable {p : Program} {c c' : Configuration} {t : Transition} {n i : Nat}

/-! ## Between more cells -/

namespace Configuration

/-- The configuration with its tape between more cells; the head stays on its cell. -/
def framed (before after : List Symbol) (c : Configuration) : Configuration :=
  { c with tape := before.toArray ++ c.tape ++ after.toArray, head := before.length + c.head }

variable {before after : List Symbol}

theorem inBounds_framed (hb : c.inBounds = true) : (c.framed before after).inBounds = true := by
  obtain ⟨h0, hlt⟩ := inBounds_iff.mp hb
  refine inBounds_iff.mpr ?_
  simp only [framed, Array.size_append, List.size_toArray]
  omega

/-- The cell under the head has its place after the cells before. -/
theorem toNat_head_framed (hb : c.inBounds = true) :
    (c.framed before after).head.toNat = before.toArray.size + c.head.toNat := by
  have h0 := (inBounds_iff.mp hb).1
  simp only [framed, List.size_toArray]
  omega

theorem choose_framed (hb : c.inBounds = true) : (c.framed before after).choose = c.choose := by
  have hs : (c.framed before after).scanned? = c.scanned? := by
    obtain ⟨h0, hlt⟩ := inBounds_iff.mp hb
    have hlt' : c.head.toNat < c.tape.size := by omega
    have hb' : (c.framed before after).inBounds = true := inBounds_framed hb
    have h0' := (inBounds_iff.mp hb').1
    rw [scanned?, scanned?, if_pos h0, if_pos h0', toNat_head_framed hb, framed,
      Array.getElem?_append_left (by rw [Array.size_append]; omega),
      Array.getElem?_append_right (by omega), Nat.add_sub_cancel_left]
  unfold choose
  rw [hs]
  rfl

/-- A transition writes between the cells around the tape. -/
theorem act_framed (hb : c.inBounds = true) :
    (c.framed before after).act t = (c.act t).framed before after := by
  obtain ⟨h0, hlt⟩ := inBounds_iff.mp hb
  have hlt' : before.toArray.size + c.head.toNat < (before.toArray ++ c.tape).size := by
    rw [Array.size_append]
    omega
  have hset : (before.toArray ++ c.tape ++ after.toArray).setIfInBounds
      (c.framed before after).head.toNat t.write =
        before.toArray ++ c.tape.setIfInBounds c.head.toNat t.write ++ after.toArray := by
    rw [toNat_head_framed hb, Array.setIfInBounds_append_left hlt',
      Array.setIfInBounds_append_right (Nat.le_add_right _ _), Nat.add_sub_cancel_left]
  have hhead : (before.length : Int) + c.head + t.move.delta =
      before.length + (c.head + t.move.delta) := Int.add_assoc _ _ _
  unfold act framed
  dsimp only
  rw [hhead]
  split
  · exact congrArg (Configuration.mk · _ c.state _) hset
  · rfl

end Configuration

open TapeMachine.Configuration

variable {before after : List Symbol}

/-- A step that does not fail is the same between more cells. -/
theorem step_framed (hok : ∀ fault, (step p c).2 ≠ .failed fault) :
    step p (c.framed before after) = ((step p c).1.framed before after, (step p c).2) := by
  cases hc : c.choose with
  | error fault => exact absurd (by rw [step_of_choose_error hc]) (hok fault)
  | ok chosen =>
    obtain ⟨cell, t⟩ := chosen
    -- what was scanned stands on the tape
    have hb : c.inBounds = true := by
      have hscanned := (choose_eq_ok.mp hc).1
      cases hb : c.inBounds with
      | true => rfl
      | false =>
        rw [scanned?_eq_none.mpr hb] at hscanned
        cases hscanned
    have hact : (c.framed before after).act t = (c.act t).framed before after := act_framed hb
    rw [step_of_choose_ok hc] at hok ⊢
    rw [step_of_choose_ok ((choose_framed hb).trans hc)]
    rcases follow_cases p cell t c with ⟨-, he⟩ | ⟨hi, hh, he⟩ | ⟨-, -, -, he⟩ | ⟨hi, hh, s, hf, he⟩
    · exact absurd (by rw [he]) (hok (.fellOff cell t))
    · rw [he, follow_of_halting cell (hact ▸ inBounds_framed hi) hh, hact]
    · exact absurd (by rw [he]) (hok (.missingState t.next))
    · rw [he, follow_of_find? cell (hact ▸ inBounds_framed hi) hh hf, hact]
      rfl

/-- A run that does not fail is the same between more cells. -/
theorem runFor_framed (hok : ∀ fault, (runFor p n c).2 ≠ .failed fault) :
    runFor p n (c.framed before after) =
      ((runFor p n c).1.framed before after, (runFor p n c).2) := by
  induction n generalizing c with
  | zero => rfl
  | succ n ih =>
    by_cases hs : (step p c).2 = .running
    · have hstep : step p c = ((step p c).1, .running) := Prod.ext rfl hs
      have hframed : step p (c.framed before after) =
          ((step p c).1.framed before after, .running) := by
        rw [step_framed (by rw [hs]; exact nofun), hs]
      rw [runFor_succ_of_running n hstep] at hok ⊢
      rw [runFor_succ_of_running n hframed, ih hok]
    · rw [runFor_succ_of_not_running n hs] at hok ⊢
      have hframed : step p (c.framed before after) =
          ((step p c).1.framed before after, (step p c).2) := step_framed hok
      rw [runFor_succ_of_not_running n (by rw [hframed]; exact hs), hframed]

/-- A run that does not fail has not failed before. -/
theorem not_failed_of_le {m : Nat} (hok : ∀ fault, (runFor p n c).2 ≠ .failed fault) (hmn : m ≤ n) :
    ∀ fault, (runFor p m c).2 ≠ .failed fault := by
  intro fault hf
  obtain ⟨d, rfl⟩ := Nat.exists_eq_add_of_le hmn
  refine hok fault ?_
  rw [runFor_of_not_running d (by rw [hf]; exact nofun), hf]

/-! ## Something else in a cell -/

namespace Configuration

/-- The configuration with a symbol in a cell. -/
def withCell (i : Nat) (symbol : Symbol) (c : Configuration) : Configuration :=
  { c with tape := c.tape.setIfInBounds i symbol }

variable {symbol : Symbol}

theorem inBounds_withCell : (c.withCell i symbol).inBounds = c.inBounds := by
  have hsize : (c.tape.setIfInBounds i symbol).size = c.tape.size := Array.size_setIfInBounds
  unfold inBounds withCell
  rw [hsize]

theorem choose_withCell (h : c.head ≠ i) : (c.withCell i symbol).choose = c.choose := by
  have hs : (c.withCell i symbol).scanned? = c.scanned? := by
    unfold scanned? withCell
    dsimp only
    by_cases h0 : 0 ≤ c.head
    · rw [if_pos h0, if_pos h0, Array.getElem?_setIfInBounds_ne (by omega)]
    · rw [if_neg h0, if_neg h0]
  unfold choose
  rw [hs]
  rfl

/-- A transition writes to another cell. -/
theorem act_withCell (h0 : 0 ≤ c.head) (h : c.head ≠ i) :
    (c.withCell i symbol).act t = (c.act t).withCell i symbol := by
  unfold act withCell
  dsimp only
  split
  · rw [Array.setIfInBounds_comm symbol t.write (by omega)]
  · rfl

end Configuration

variable {symbol : Symbol}

/-- A step makes no difference between contents of a cell where the head is not. -/
theorem step_withCell (h : c.head ≠ i) :
    step p (c.withCell i symbol) = ((step p c).1.withCell i symbol, (step p c).2) := by
  cases hc : c.choose with
  | error fault =>
    rw [step_of_choose_error hc, step_of_choose_error ((choose_withCell h).trans hc)]
  | ok chosen =>
    obtain ⟨cell, t⟩ := chosen
    have h0 : 0 ≤ c.head := (Option.ite_none_right_eq_some.mp (choose_eq_ok.mp hc).1).1
    have hact : (c.withCell i symbol).act t = (c.act t).withCell i symbol := act_withCell h0 h
    have hb : ((c.withCell i symbol).act t).inBounds = (c.act t).inBounds := by
      rw [hact, inBounds_withCell]
    rw [step_of_choose_ok hc, step_of_choose_ok ((choose_withCell h).trans hc)]
    rcases follow_cases p cell t c with
      ⟨ho, he⟩ | ⟨hi, hh, he⟩ | ⟨hi, hh, hf, he⟩ | ⟨hi, hh, s, hf, he⟩
    · rw [he, follow_of_outside cell (hb.trans ho), hact]
    · rw [he, follow_of_halting cell (hb.trans hi) hh, hact]
    · rw [he, follow_of_missing cell (hb.trans hi) hh hf, hact]
    · rw [he, follow_of_find? cell (hb.trans hi) hh hf, hact]
      rfl

/-- The head does not come to a cell in at most `n` steps: it is not there before any of them. -/
def Avoids (p : Program) (n : Nat) (c : Configuration) (i : Nat) : Prop :=
  ∀ k < n, ∀ c', runFor p k c = (c', .running) → c'.head ≠ i

/-- A run makes no difference between contents of a cell that the head does not come to. -/
theorem runFor_withCell (h : Avoids p n c i) :
    runFor p n (c.withCell i symbol) = ((runFor p n c).1.withCell i symbol, (runFor p n c).2) := by
  induction n generalizing c with
  | zero => rfl
  | succ n ih =>
    have hcell : step p (c.withCell i symbol) = ((step p c).1.withCell i symbol, (step p c).2) :=
      step_withCell (h 0 (Nat.succ_pos n) c rfl)
    by_cases hs : (step p c).2 = .running
    · have hstep : step p c = ((step p c).1, .running) := Prod.ext rfl hs
      have hrest : Avoids p n (step p c).1 i := by
        intro k hk c' hr
        exact h (k + 1) (by omega) c' (by rw [runFor_succ_of_running k hstep, hr])
      rw [hs] at hcell
      rw [runFor_succ_of_running n hstep, runFor_succ_of_running n hcell, ih hrest]
    · rw [runFor_succ_of_not_running n hs, runFor_succ_of_not_running n (by rw [hcell]; exact hs),
        hcell]

theorem size_step (p : Program) (c : Configuration) : (step p c).1.tape.size = c.tape.size := by
  cases hc : c.choose with
  | error fault => rw [step_of_choose_error hc]
  | ok chosen =>
    obtain ⟨s, hs⟩ := exists_follow_eq p chosen.1 chosen.2 c
    rw [step_of_choose_ok hc, hs]
    exact size_act _ _

theorem size_runFor (n : Nat) : (runFor p n c).1.tape.size = c.tape.size := by
  induction n generalizing c with
  | zero => rfl
  | succ n ih =>
    by_cases hs : (step p c).2 = .running
    · have hstep : step p c = ((step p c).1, .running) := Prod.ext rfl hs
      rw [runFor_succ_of_running n hstep, ih, size_step]
    · rw [runFor_succ_of_not_running n hs, size_step]

/-- A cell that the head does not come to holds the same afterwards. -/
theorem getElem?_runFor_of_avoids (h : Avoids p n c i) :
    (runFor p n c).1.tape[i]? = c.tape[i]? := by
  have hsize : (runFor p n c).1.tape.size = c.tape.size := size_runFor n
  rcases Nat.lt_or_ge i c.tape.size with hlt | hge
  · -- putting into the cell what it holds makes no difference before the run, so none after it
    have hsame : c.withCell i c.tape[i] = c := by
      unfold withCell
      rw [Array.setIfInBounds_def, dif_pos hlt, Array.set_getElem_self]
    have hrun : runFor p n (c.withCell i c.tape[i]) =
        ((runFor p n c).1.withCell i c.tape[i], (runFor p n c).2) := runFor_withCell h
    rw [hsame] at hrun
    rw [congrArg Prod.fst hrun, withCell, Array.getElem?_setIfInBounds_self_of_lt (by omega),
      Array.getElem?_eq_getElem hlt]
  · rw [Array.getElem?_eq_none hge, Array.getElem?_eq_none (by omega)]

/-! ## Results -/

/-- The result of a run whose tape is between more cells. -/
def Result.framed (before after : List Symbol) (r : Result) : Result :=
  { r with tape := String.join before ++ r.tape ++ String.join after, head := before.length + r.head }

theorem Result.ofRun?_framed (c : Configuration) (s : Status) :
    ofRun? (c.framed before after, s) = (ofRun? (c, s)).map (Result.framed before after) := by
  have hcontents : (c.framed before after).tape.contents =
      String.join before ++ c.tape.contents ++ String.join after := by
    simp only [Tape.contents, Configuration.framed, Array.toList_append, String.join_append]
  cases s with
  | running => rfl
  | failed fault => rfl
  | halted accepted =>
    simp only [ofRun?, Option.map_some, ofFinal, Result.framed, hcontents]
    rfl

namespace Machine

/-- A run that has not failed makes the same steps between more cells, and gives the same result there;
and no run reads or writes a cell that its head does not come to. -/
theorem run_is_local (m : Machine) (c : Configuration) (n : Nat) :
    (∀ before after : List Symbol, (∀ fault, (runFor m.program n c).2 ≠ .failed fault) →
      ∀ k ≤ n, runFor m.program k (c.framed before after) =
          ((runFor m.program k c).1.framed before after, (runFor m.program k c).2) ∧
        Result.ofRun? (runFor m.program k (c.framed before after)) =
          (Result.ofRun? (runFor m.program k c)).map (Result.framed before after)) ∧
    ∀ i, Avoids m.program n c i → (runFor m.program n c).1.tape[i]? = c.tape[i]? ∧
      ∀ symbol, runFor m.program n (c.withCell i symbol) =
        ((runFor m.program n c).1.withCell i symbol, (runFor m.program n c).2) := by
  constructor
  · intro before after hok k hk
    have hrun : runFor m.program k (c.framed before after) =
        ((runFor m.program k c).1.framed before after, (runFor m.program k c).2) :=
      runFor_framed (not_failed_of_le hok hk)
    refine ⟨hrun, ?_⟩
    rw [hrun]
    exact Result.ofRun?_framed _ _
  · intro i hi
    exact ⟨getElem?_runFor_of_avoids hi, fun symbol => runFor_withCell hi⟩

/-- Writes a letter and goes one cell to the right. -/
def marks : String :=
  "S,* -> E,a,r\n" ++
  "E,* -> ha,*,s\n"

/-- The first configuration in three blank cells. -/
def onThreeBlanks (m : Machine) : Configuration := .onTape #["_", "_", "_"] 0 m.start

/-- The program accepts after two steps, and does not come to the last cell. -/
def keepsToTwoCells (m : Machine) : Bool :=
  let (final, ending) := runFor m.program 2 m.onThreeBlanks
  final.tape = #["a", "_", "_"] && ending = .halted true &&
    (List.range 2).all fun k => (runFor m.program k m.onThreeBlanks).1.head ≠ 2

/-- So it does between letters, and with a letter in the last cell. -/
theorem run_is_local_marks : ∃ m, compile marks (Alphabet.itemsOf "a") = .ok m ∧
    (∀ fault, (runFor m.program 2 m.onThreeBlanks).2 ≠ .failed fault) ∧
    Avoids m.program 2 m.onThreeBlanks 2 ∧
    ((runFor m.program 2 (m.onThreeBlanks.framed ["b", "a"] ["a"])).1.tape =
        #["b", "a", "a", "_", "_", "a"] ∧
      (runFor m.program 2 (m.onThreeBlanks.framed ["b", "a"] ["a"])).2 = .halted true) ∧
    (runFor m.program 2 (m.onThreeBlanks.withCell 2 "b")).1.tape = #["a", "_", "b"] := by
  obtain ⟨m, hm, htest⟩ : ∃ m, compile marks (Alphabet.itemsOf "a") = .ok m ∧
      keepsToTwoCells m = true := Sample.exists_machine_with (by decide +kernel)
  unfold keepsToTwoCells at htest
  simp only [Bool.and_eq_true, decide_eq_true_eq, List.all_eq_true, List.mem_range] at htest
  obtain ⟨⟨htape, hend⟩, hhead⟩ := htest
  have hok : ∀ fault, (runFor m.program 2 m.onThreeBlanks).2 ≠ .failed fault := by
    rw [hend]
    exact nofun
  have havoids : Avoids m.program 2 m.onThreeBlanks 2 := by
    intro k hk c' hr
    have h := hhead k hk
    rwa [hr] at h
  have hframed := ((run_is_local m m.onThreeBlanks 2).1 ["b", "a"] ["a"] hok 2 (Nat.le_refl 2)).1
  have hcell := ((run_is_local m m.onThreeBlanks 2).2 2 havoids).2 "b"
  refine ⟨m, hm, hok, havoids, ⟨?_, ?_⟩, ?_⟩
  · rw [hframed]
    change #["b", "a"] ++ (runFor m.program 2 m.onThreeBlanks).1.tape ++ #["a"] = _
    rw [htape]
    rfl
  · rw [hframed, hend]
  · rw [hcell]
    change (runFor m.program 2 m.onThreeBlanks).1.tape.setIfInBounds 2 "b" = _
    rw [htape]
    rfl

end Machine

end TapeMachine
