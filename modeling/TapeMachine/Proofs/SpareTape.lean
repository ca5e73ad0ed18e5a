import TapeMachine.Proofs.Budgets
import TapeMachine.Proofs.Framing

/-!
# Spare tape

A configuration can be padded with blanks at the end of its tape. As long as the head stays before
the padding, the padded configuration makes the same steps, and what is shown of it is the same. So
a longer tape changes nothing about a run, unless the run went off the right end of the shorter one.

## Main statements

* `step_padded`, `runFor_padded` — a step, and a run, that stays before the padding
* `Fault.message_padded`, `Result.describe_padded` — what is shown does not show the padding
* `Machine.run_on_spare_tape` — runs of compiled machines on two sizes of tape
-/

namespace TapeMachine

variable {p : Program} {c : Configuration} {t : Transition} {n k : Nat}

/-! ## Padding -/

namespace Configuration

/-- The configuration with more blanks at the end of its tape. -/
def padded (k : Nat) (c : Configuration) : Configuration :=
  { c with tape := c.tape ++ Array.replicate k Symbol.blank }

/-- To be padded is to be between no cells and blanks. -/
theorem padded_eq_framed (k : Nat) (c : Configuration) :
    c.padded k = c.framed [] (List.replicate k Symbol.blank) := by
  simp [padded, framed]

theorem inBounds_padded (hb : c.inBounds = true) : (c.padded k).inBounds = true := by
  rw [padded_eq_framed]
  exact inBounds_framed hb

theorem choose_padded (hb : c.inBounds = true) : (c.padded k).choose = c.choose := by
  rw [padded_eq_framed]
  exact choose_framed hb

/-- A transition writes before the padding. -/
theorem act_padded (hb : c.inBounds = true) : (c.padded k).act t = (c.act t).padded k := by
  rw [padded_eq_framed, padded_eq_framed]
  exact act_framed hb

end Configuration

open TapeMachine.Configuration

/-! ## Where a run can stand -/

/-- Where a run on a tape of a size can stand: on the tape, or beside it if it just left. -/
inductive Stands (size : Nat) : Configuration × Status → Prop where
  | inside {c : Configuration} {s : Status} (hsize : c.tape.size = size) (hb : c.inBounds = true)
      (hf : ∀ fault, s = .failed fault →
        (∃ cell, fault = .noTransition cell) ∨ ∃ name, fault = .missingState name) :
      Stands size (c, s)
  | left {c : Configuration} {cell : Symbol} {t : Transition} (hsize : c.tape.size = size)
      (hh : c.head = -1) : Stands size (c, .failed (.fellOff cell t))
  | right {c : Configuration} {cell : Symbol} {t : Transition} (hsize : c.tape.size = size)
      (hh : c.head = size) : Stands size (c, .failed (.fellOff cell t))

theorem Stands.size_eq {size : Nat} {s : Status} (h : Stands size (c, s)) : c.tape.size = size := by
  cases h with
  | inside hsize _ _ => exact hsize
  | left hsize _ => exact hsize
  | right hsize _ => exact hsize

/-- A run that has not failed stands on the tape. -/
theorem Stands.inBounds {size : Nat} {s : Status} (h : Stands size (c, s))
    (hs : ∀ fault, s ≠ .failed fault) : c.inBounds = true ∧ c.head < size := by
  cases h with
  | inside hsize hb _ => exact ⟨hb, hsize ▸ (inBounds_iff.mp hb).2⟩
  | left _ _ => exact absurd rfl (hs _)
  | right _ _ => exact absurd rfl (hs _)

/-- A head on the tape moves by one cell at most. -/
theorem stands_step (hb : c.inBounds = true) : Stands c.tape.size (step p c) := by
  obtain ⟨h0, hlt⟩ := inBounds_iff.mp hb
  cases hc : c.choose with
  | error fault =>
    rw [step_of_choose_error hc]
    rcases choose_eq_error.mp hc with ⟨hn, -⟩ | ⟨cell, -, -, rfl⟩
    · rw [scanned?_eq_none, hb] at hn
      cases hn
    · exact .inside rfl hb fun fault hf => Or.inl ⟨cell, by cases hf; rfl⟩
  | ok chosen =>
    obtain ⟨cell, t⟩ := chosen
    have hsize : (c.act t).tape.size = c.tape.size := size_act t c
    rw [step_of_choose_ok hc]
    rcases follow_cases p cell t c with
      ⟨ho, he⟩ | ⟨hi, hh, he⟩ | ⟨hi, hh, hf, he⟩ | ⟨hi, hh, s, hf, he⟩
    · rw [he]
      have hhead : (c.act t).head = c.head + t.move.delta := rfl
      rw [← Bool.not_eq_true, inBounds_iff, hsize] at ho
      have hdelta : -1 ≤ t.move.delta ∧ t.move.delta ≤ 1 := by cases t.move <;> decide
      by_cases hneg : (c.act t).head < 0
      · exact .left hsize (by omega)
      · exact .right hsize (by omega)
    · rw [he]
      exact .inside hsize hi nofun
    · rw [he]
      exact .inside hsize hi fun fault hf => Or.inr ⟨t.next, by cases hf; rfl⟩
    · rw [he]
      exact .inside hsize hi nofun

theorem stands_runFor (n : Nat) (hb : c.inBounds = true) : Stands c.tape.size (runFor p n c) := by
  induction n generalizing c with
  | zero => exact .inside rfl hb nofun
  | succ n ih =>
    have hstep : Stands c.tape.size (step p c) := stands_step hb
    by_cases hs : (step p c).2 = .running
    · have hc : step p c = ((step p c).1, .running) := Prod.ext rfl hs
      rw [hc] at hstep
      rw [runFor_succ_of_running n hc, ← hstep.size_eq]
      exact ih (hstep.inBounds nofun).1
    · rw [runFor_succ_of_not_running n hs]
      exact hstep

/-! ## Steps and runs -/

/-- Where a transition does not lead past the right end, it leads to the same on a padded tape. -/
theorem follow_padded {cell : Symbol} (hb : c.inBounds = true)
    (hright : (c.act t).head < c.tape.size) :
    follow p cell t (c.padded k) = ((follow p cell t c).1.padded k, (follow p cell t c).2) := by
  have hact : (c.padded k).act t = (c.act t).padded k := act_padded hb
  rcases follow_cases p cell t c with ⟨ho, he⟩ | ⟨hi, hh, he⟩ | ⟨hi, hh, hf, he⟩ | ⟨hi, hh, s, hf, he⟩
  · -- the head went off on the left, where no padding is
    have ho' : ((c.padded k).act t).inBounds = false := by
      rw [hact, ← Bool.not_eq_true, inBounds_iff]
      rw [← Bool.not_eq_true, inBounds_iff, size_act] at ho
      exact fun h => ho ⟨h.1, hright⟩
    rw [he, follow_of_outside cell ho', hact]
  · rw [he, follow_of_halting cell (hact ▸ inBounds_padded hi) hh, hact]
  · rw [he, follow_of_missing cell (hact ▸ inBounds_padded hi) hh hf, hact]
  · rw [he, follow_of_find? cell (hact ▸ inBounds_padded hi) hh hf, hact]
    rfl

theorem step_padded (hb : c.inBounds = true) (hright : (step p c).1.head < c.tape.size) :
    step p (c.padded k) = ((step p c).1.padded k, (step p c).2) := by
  cases hc : c.choose with
  | error fault => rw [step_of_choose_error hc, step_of_choose_error ((choose_padded hb).trans hc)]
  | ok chosen =>
    obtain ⟨cell, t⟩ := chosen
    rw [step_of_choose_ok hc] at hright ⊢
    rw [step_of_choose_ok ((choose_padded hb).trans hc)]
    obtain ⟨s, hs⟩ := exists_follow_eq p cell t c
    rw [hs] at hright
    exact follow_padded hb hright

/-- A run that does not go off the right end is the same on a padded tape. -/
theorem runFor_padded (hb : c.inBounds = true) (hright : (runFor p n c).1.head < c.tape.size) :
    runFor p n (c.padded k) = ((runFor p n c).1.padded k, (runFor p n c).2) := by
  induction n generalizing c with
  | zero => rfl
  | succ n ih =>
    by_cases hs : (step p c).2 = .running
    · have hc : step p c = ((step p c).1, .running) := Prod.ext rfl hs
      have hstep : Stands c.tape.size ((step p c).1, .running) := hc ▸ stands_step hb
      obtain ⟨hi, hlt⟩ := hstep.inBounds nofun
      have hpad : step p (c.padded k) = ((step p c).1.padded k, .running) := by
        rw [step_padded hb hlt, hs]
      rw [runFor_succ_of_running n hc] at hright ⊢
      rw [runFor_succ_of_running n hpad, ih hi (by rw [hstep.size_eq]; exact hright)]
    · rw [runFor_succ_of_not_running n hs] at hright ⊢
      have hpad := step_padded (k := k) hb hright
      rw [runFor_succ_of_not_running n (by rw [hpad]; exact hs), hpad]

/-- A run that is still going is still going on a padded tape. -/
theorem runFor_padded_of_running {last : Configuration} (hb : c.inBounds = true)
    (hr : runFor p n c = (last, .running)) : runFor p n (c.padded k) = (last.padded k, .running) := by
  have hstands : Stands c.tape.size (last, .running) := hr ▸ stands_runFor n hb
  rw [runFor_padded hb (by rw [hr]; exact (hstands.inBounds nofun).2), hr]

/-- A run that never ends never ends on a padded tape. -/
theorem neverEnds_padded (hb : c.inBounds = true) (h : NeverEnds p c) :
    NeverEnds p (c.padded k) := by
  intro n
  rw [runFor_padded_of_running hb (Prod.ext rfl (h n))]

/-- Runs to the end that do not go off the right end are the same on a padded tape. -/
theorem run_padded (hb : c.inBounds = true) (hend : (run p c).2 ≠ .running)
    (hright : (run p c).1.head < c.tape.size) :
    run p (c.padded k) = ((run p c).1.padded k, (run p c).2) := by
  rw [run_eq_runFor] at hend hright
  have hpad := runFor_padded (k := k) hb hright
  rw [run_of_ended hend, ← hpad]
  exact run_of_ended (by rw [hpad]; exact hend)

/-! ## What is shown -/

theorem toList_padded (k : Nat) (c : Configuration) :
    (c.padded k).tape.toList = c.tape.toList ++ List.replicate k Symbol.blank := by
  rw [padded, Array.toList_append, Array.toList_replicate]

/-- A message about a head that is not past the right end does not show the padding. -/
theorem Fault.message_padded {fault : Fault} (hpos : 0 < c.tape.size)
    (hright : c.head < c.tape.size) : fault.message (c.padded k) = fault.message c := by
  have hrender : (c.padded k).render = c.render := by
    have hlt : c.head.toNat < c.tape.toList.length := by rw [Array.length_toList]; omega
    unfold Configuration.render Tape.render
    rw [toList_padded]
    change String.join (Tape.shown (_ ++ _) c.head) ++ _ ++ _ = _
    rw [Tape.shown_append_blanks k hlt]
    rfl
  have hstate : (c.padded k).state = c.state := rfl
  cases fault <;> simp only [message, hrender, hstate]

/-- The contents of a padded tape. -/
theorem contents_padded (k : Nat) (c : Configuration) : (c.padded k).tape.contents =
    c.tape.contents ++ String.join (List.replicate k Symbol.blank) := by
  rw [Tape.contents, toList_padded, String.join_append]
  rfl

/-- The description of a result does not show the padding. -/
theorem Result.describe_padded {accepted : Bool} (hcells : ∀ cell ∈ c.tape, cell.length = 1)
    (hb : c.inBounds = true) :
    (ofFinal (c.padded k) accepted).describe = (ofFinal c accepted).describe := by
  obtain ⟨h0, hlt⟩ := inBounds_iff.mp hb
  have hsymbols : symbolsOf c.tape.contents = c.tape.toList := Tape.symbolsOf_contents hcells
  have hpadded : symbolsOf (c.padded k).tape.contents =
      c.tape.toList ++ List.replicate k Symbol.blank := by
    rw [← toList_padded]
    refine Tape.symbolsOf_contents fun x hx => ?_
    rw [padded, Array.mem_append, Array.mem_replicate] at hx
    rcases hx with hx | ⟨-, rfl⟩
    · exact hcells x hx
    · decide
  have hhead : c.head.toNat < c.tape.toList.length := by rw [Array.length_toList]; omega
  simp only [describe_eq, ofFinal, hsymbols, hpadded]
  change String.join (Tape.shown (_ ++ _) c.head) ++ _ ++ _ ++ _ ++ _ = _
  rw [Tape.shown_append_blanks k hhead]
  rfl

namespace Machine

variable {m : Machine} {contents : String} {size size' head : Int} {c₀ : Configuration}

/-! ## Runs of compiled machines -/

/-- A fresh tape of a larger size is the tape of the smaller size, padded. -/
theorem begin_padded (hb : m.begin contents size head = .ok c₀) (hle : size ≤ size') :
    m.begin contents size' head = .ok (c₀.padded (size' - size).toNat) := by
  obtain ⟨tape, ht, rfl⟩ := begin_eq_ok.mp hb
  obtain ⟨hfits, rfl⟩ := Tape.create_eq_ok.mp ht
  refine begin_eq_ok.mpr ⟨_, Tape.create_eq_ok.mpr ⟨hfits.trans hle, rfl⟩, ?_⟩
  simp only [padded, Tape.ofCells, Array.append_assoc, Array.replicate_append_replicate,
    List.length_cons, length_symbolsOf]
  congr 3
  omega

/-- Whether a step ends the run or not, a cell holds a letter afterwards or what it held at
first. -/
theorem Keeps.cells_step {c : Configuration} (h : m.Keeps c₀ c) {i : Nat} {cell : Symbol}
    (hi : (TapeMachine.step m.program c).1.tape[i]? = some cell) :
    cell ∈ m.alphabet ∨ c₀.tape[i]? = some cell := by
  cases hc : c.choose with
  | error fault =>
    rw [step_of_choose_error hc] at hi
    exact h.cells i cell hi
  | ok chosen =>
    obtain ⟨scanned, t⟩ := chosen
    obtain ⟨-, e, he, rfl⟩ := of_choose hc
    obtain ⟨s, hs⟩ := exists_follow_eq m.program scanned e.2 c
    rw [step_of_choose_ok hc, hs] at hi
    rcases of_getElem?_act hi with hi | ⟨hw, rfl⟩
    · exact h.cells i cell hi
    · have hmem := (Program.mem_reachable_iff.mp h.state).1
      exact Or.inl ((m.validOver.writes _ hmem e he).resolve_left hw)

/-- However far a run of a compiled machine has come, each cell holds one character. -/
theorem length_of_mem_runFor {source : String} {items : List Json}
    (hm : compile source items = .ok m) (hb : m.begin contents size head = .ok c₀) (n : Nat) :
    ∀ cell ∈ (runFor m.program n c₀).1.tape, cell.length = 1 := by
  obtain ⟨-, hletters⟩ := Alphabet.of_ofItems (compile_eq_ok.mp hm).1
  have h₀ : m.Keeps c₀ c₀ := .of_begin hb
  intro cell hmem
  obtain ⟨i, hi⟩ := Array.getElem?_of_mem hmem
  have hcell : cell ∈ m.alphabet ∨ c₀.tape[i]? = some cell := by
    cases hr : runFor m.program n c₀ with
    | mk c s =>
      rw [hr] at hi
      by_cases hs : s = .running
      · exact (h₀.runFor (hs ▸ hr)).1.cells i cell hi
      · obtain ⟨k, last, -, hrun, hstep⟩ := exists_last_step hr hs
        refine (h₀.runFor hrun).1.cells_step ?_
        rw [hstep]
        exact hi
  rcases hcell with hl | hi
  · exact (hletters cell hl).1
  · exact (of_getElem?_first hb hi).1

/-- Contents that fit begin a run; the head is on the tape if it is meant to be. -/
theorem begin_of_fits (m : Machine) (hfits : (contents.length : Int) + 1 ≤ size) (h0 : 0 ≤ head)
    (hhead : head < size) : ∃ c₀, m.begin contents size head = .ok c₀ ∧
      (c₀.tape.size : Int) = size ∧ c₀.inBounds = true := by
  have ht : Tape.create contents size = .ok _ := Tape.create_eq_ok.mpr ⟨hfits, rfl⟩
  have hsize := Tape.size_of_create ht
  exact ⟨_, begin_eq_ok.mpr ⟨_, ht, rfl⟩, hsize, inBounds_iff.mpr ⟨h0, by rw [hsize]; exact hhead⟩⟩

/-- Where a run to the end stands. -/
theorem stands_run [Host] {r : Configuration × Status} (hsize : size ≤ Host.mostCells)
    (hb : m.begin contents size head = .ok c₀) (hon : c₀.inBounds = true)
    (hr : m.run contents size head = .ok r) : Stands c₀.tape.size r := by
  rw [run_of_begin hsize hb, Except.ok.injEq, run_eq_runFor] at hr
  exact hr ▸ stands_runFor _ hon

/-- A run to the end that does not go off the right end, on a larger tape. -/
theorem run_of_larger [Host] {final : Configuration} {ending : Status} (hle : size ≤ size')
    (hmem : size' ≤ Host.mostCells) (hb : m.begin contents size head = .ok c₀)
    (hon : c₀.inBounds = true) (hr : m.run contents size head = .ok (final, ending))
    (hend : ending ≠ .running) (hright : final.head < c₀.tape.size) :
    m.run contents size' head = .ok (final.padded (size' - size).toNat, ending) := by
  rw [run_of_begin (hle.trans hmem) hb, Except.ok.injEq] at hr
  rw [run_of_begin hmem (begin_padded hb hle),
    run_padded hon (by rw [hr]; exact hend) (by rw [hr]; exact hright), hr]

/-- A run on the tape fails for want of a transition, or by leaving the tape. -/
theorem fault_of_run [Host] {final : Configuration} {fault : Fault} (hsize : size ≤ Host.mostCells)
    (hb : m.begin contents size head = .ok c₀) (hon : c₀.inBounds = true)
    (hr : m.run contents size head = .ok (final, .failed fault)) :
    (∃ cell, fault = .noTransition cell ∧ final.head < c₀.tape.size) ∨
      ∃ cell t, fault = .fellOff cell t ∧ (final.head = -1 ∨ final.head = c₀.tape.size) := by
  have hstands := stands_run hsize hb hon hr
  rw [run_of_begin hsize hb, Except.ok.injEq, run_eq_runFor] at hr
  cases hstands with
  | inside hs hi hf =>
    rcases hf fault rfl with ⟨cell, rfl⟩ | ⟨name, rfl⟩
    · exact Or.inl ⟨cell, rfl, hs ▸ (inBounds_iff.mp hi).2⟩
    · exact absurd rfl (fault_ne_missingState hb hr name)
  | left _ hh => exact Or.inr ⟨_, _, rfl, Or.inl hh⟩
  | right _ hh => exact Or.inr ⟨_, _, rfl, Or.inr hh⟩

/-- Runs of a compiled machine from the same contents, with the head on the tape, on two sizes of
tape that a memory holds. A run that halts on the shorter tape halts on the longer one with the same
head, verdict and steps, the same tape with blanks after it, and the same description. A run that
fails for want of a transition, or on the left, fails with the same message. A run that is still
going when a budget is used up is still going, in the same state with the same head, the tape with
blanks after it; and one that never ends never ends. All that is left is a run that goes off the
right end of the shorter tape. -/
theorem run_on_spare_tape [Host] {source : String} {items : List Json}
    (hm : compile source items = .ok m) (hfits : (contents.length : Int) + 1 ≤ size)
    (hle : size ≤ size') (hmem : size' ≤ Host.mostCells) (h0 : 0 ≤ head) (hhead : head < size) :
    (∀ final accepted, m.run contents size head = .ok (final, .halted accepted) →
      ∃ final', m.run contents size' head = .ok (final', .halted accepted) ∧
        let r := Result.ofFinal final accepted
        let r' := Result.ofFinal final' accepted
        r'.head = r.head ∧ r'.accepted = r.accepted ∧ r'.steps = r.steps ∧
          r'.tape = r.tape ++ String.join (List.replicate (size' - size).toNat Symbol.blank) ∧
          r'.describe = r.describe) ∧
    (∀ final fault, m.run contents size head = .ok (final, .failed fault) →
      ((∃ cell, fault = .noTransition cell) ∨ ∃ cell t, fault = .fellOff cell t ∧ final.head < 0) →
        ∃ final', m.run contents size' head = .ok (final', .failed fault) ∧
          fault.message final' = fault.message final) ∧
    (∃ c₀ c₀', m.begin contents size head = .ok c₀ ∧ m.begin contents size' head = .ok c₀' ∧
      ∀ budget last, runBounded m.program budget c₀ = (last, .running) →
        runBounded m.program budget c₀' = (last.padded (size' - size).toNat, .running)) ∧
    ((∃ c, m.run contents size head = .ok (c, .running)) →
      ∃ c, m.run contents size' head = .ok (c, .running)) ∧
    ∀ final fault, m.run contents size head = .ok (final, .failed fault) →
      (∃ cell, fault = .noTransition cell) ∨
        ∃ cell t, fault = .fellOff cell t ∧ (final.head = -1 ∨ final.head = size) := by
  have hsize : size ≤ Host.mostCells := hle.trans hmem
  obtain ⟨c₀, hb, hcells, hon⟩ := begin_of_fits m hfits h0 hhead
  have hb' := begin_padded hb hle
  refine ⟨?_, ?_, ⟨c₀, _, hb, hb', fun budget last hr => runFor_padded_of_running hon hr⟩, ?_, ?_⟩
  · intro final accepted h
    obtain ⟨hi, hright⟩ := (stands_run hsize hb hon h).inBounds nofun
    have hlength : ∀ cell ∈ final.tape, cell.length = 1 := by
      have hall := length_of_mem_runFor hm hb (spanTotal (spanCount m.program c₀) 1)
      rw [run_of_begin hsize hb, Except.ok.injEq, run_eq_runFor] at h
      rwa [h] at hall
    exact ⟨_, run_of_larger hle hmem hb hon h nofun hright, rfl, rfl, rfl,
      contents_padded _ final, Result.describe_padded hlength hi⟩
  · intro final fault h hf
    have hstands := stands_run hsize hb hon h
    have hright : final.head < c₀.tape.size := by
      rcases fault_of_run hsize hb hon h with ⟨cell, -, hlt⟩ | ⟨cell, t, rfl, hh⟩
      · exact hlt
      · rcases hf with ⟨cell', hf⟩ | ⟨cell', t', -, hneg⟩
        · cases hf
        · omega
    exact ⟨_, run_of_larger hle hmem hb hon h nofun hright,
      Fault.message_padded (by rw [hstands.size_eq]; omega) (by rw [hstands.size_eq]; exact hright)⟩
  · rintro ⟨c, h⟩
    rw [run_of_begin hsize hb, Except.ok.injEq] at h
    have hnever : NeverEnds m.program c₀ := neverEnds_of_run_running (by rw [h])
    exact run_eq_of_neverEnds hmem hb' (neverEnds_padded hon hnever)
  · intro final fault h
    rcases fault_of_run hsize hb hon h with ⟨cell, hf, -⟩ | ⟨cell, t, hf, hh⟩
    · exact Or.inl ⟨cell, hf⟩
    · exact Or.inr ⟨cell, t, hf, by rwa [hcells] at hh⟩

section

attribute [local instance] Host.usual

/-- The sample program on two letters in eight cells accepts, with the head after the letters. -/
def acceptsInEightCells (m : Machine) : Bool :=
  match m.run "aa" 8 0 with
  | .ok (final, .halted true) => Result.ofFinal final true = ⟨"_aa_____", 3, true, 4⟩
  | _ => false

/-- So it does in sixteen cells. -/
theorem run_on_spare_tape_evens : ∃ m,
    compile Sample.evens (Alphabet.itemsOf Sample.evensLetters) = .ok m ∧
      (("aa".length : Int) + 1 ≤ 8 ∧ (8 : Int) ≤ 16 ∧ (16 : Int) ≤ Host.mostCells) ∧
      ∃ final, m.run "aa" 16 0 = .ok (final, .halted true) ∧
        (Result.ofFinal final true).tape = "_aa_____________" ∧
        (Result.ofFinal final true).head = 3 := by
  have hsizes : (("aa".length : Int) + 1 ≤ 8 ∧ (8 : Int) ≤ 16 ∧ (16 : Int) ≤ Host.mostCells) := by
    decide
  obtain ⟨m, hm, htest⟩ : ∃ m, compile Sample.evens (Alphabet.itemsOf Sample.evensLetters) = .ok m ∧
      acceptsInEightCells m = true := Sample.exists_machine_with (by decide +kernel)
  refine ⟨m, hm, hsizes, ?_⟩
  unfold acceptsInEightCells at htest
  split at htest
  · next final h =>
    have hr := of_decide_eq_true htest
    obtain ⟨final', h', hhead, -, -, htape, -⟩ :=
      (run_on_spare_tape hm hsizes.1 hsizes.2.1 hsizes.2.2 (by decide) (by decide)).1 final true h
    refine ⟨final', h', ?_, ?_⟩
    · rw [htape, hr]
      decide +kernel
    · rw [hhead, hr]
  · cases htest

/-- The sample program that leaves the tape at its first step, in three cells. -/
def fallsOffLeft (m : Machine) : Bool :=
  match m.run "" 3 0 with
  | .ok (final, .failed (.fellOff _ _)) => final.head < 0
  | _ => false

/-- It leaves the tape on the left, and is not found out where no memory holds the tape. -/
theorem run_beyond_memory : ∃ m,
    compile Sample.leftward (Alphabet.itemsOf Sample.evensLetters) = .ok m ∧
      (∃ final cell t, m.run "" 3 0 = .ok (final, .failed (.fellOff cell t)) ∧ final.head < 0) ∧
      ∀ r, m.run "" 1000000000000000000000000000000 0 ≠ .ok r := by
  obtain ⟨m, hm, htest⟩ : ∃ m, compile Sample.leftward (Alphabet.itemsOf Sample.evensLetters) = .ok m ∧
      fallsOffLeft m = true := Sample.exists_machine_with (by decide +kernel)
  refine ⟨m, hm, ?_, ?_⟩
  · unfold fallsOffLeft at htest
    split at htest
    · next final cell t h => exact ⟨final, cell, t, h, of_decide_eq_true htest⟩
    · cases htest
  · intro r h
    have hbeyond : ("".length : Int) < 1000000000000000000000000000000 ∧
        (Host.mostCells : Int) < 1000000000000000000000000000000 := by decide
    rw [Machine.run, prepare, if_pos hbeyond] at h
    cases h

end

end Machine

end TapeMachine
